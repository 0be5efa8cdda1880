import Nanoserve.Engine.CacheSession
import Nanoserve.Verified.BatchedUpdate

/-! # A prefix cache and its sequences

The books of a pool that is shared by sequences and a prefix cache, in every state their calls can
reach.
-/

namespace Nanoserve.Verified

open Engine Lib PrefixCache BatchedPagedCache
open List hiding attach
open PagedKVCache (Paged blockTable unshareTail appendBlocks appendBlock)

variable {V : Type}
variable {rest : Multiset Nat} {pool : PagedCachePool V} {cache : PagedKVCache} {sequence : Nat}
  {alloc after : BlockAllocator} {next : PrefixCache} {blockHash : Int → List Nat → Int}

theorem unshareTail_any (bal : Balanced pool.allocator (↑cache.blockTable + rest)) :
    Ends (unshareTail pool cache) (Shelf (fun _ => True) rest (pool, cache)) (Shelf (fun _ => True) rest (pool, cache)) := by
  have still : Shelf (fun _ => True) rest (pool, cache) (pool, cache) := ⟨bal, trivial, .refl pool⟩
  by_cases enough : tailNeed pool cache ≤ pool.allocator.numFree
  · obtain ⟨_, unshared, supplied⟩ := unshareTail_supplied bal enough
    rw [unshared]
    exact ⟨supplied.balanced, trivial, supplied.shape⟩
  · -- The tail is shared and no block is left: the call raises before it has done anything.
    unfold tailNeed at enough
    unfold unshareTail
    cases lastEq : cache.blockTable.getLast? with
    | none => exact still
    | some tail =>
      simp only [lastEq] at enough ⊢
      by_cases sole : pool.allocator.refCount tail ≤ 1
      · grind
      · rw [if_pos (by omega)] at enough
        rw [if_neg sole]
        cases allocated : pool.allocator.allocate with
        | none => exact still
        | some taken =>
          have counted := (bal.allocate_spec (allocated : _ = some (taken.1, taken.2))).2.2.2
          omega

theorem suits_any (size : Nat) : Suits V (fun _ => True) size where
  unshared _ _ _ _ bal _ := unshareTail_any bal
  appended rest pool cache count sized bal _ := by
    induction count generalizing pool cache with
    | zero => exact ⟨bal, trivial, .refl pool⟩
    | succ _ ih =>
      unfold appendBlocks
      cases allocated : pool.allocator.allocate with
      | none => exact ⟨bal, trivial, .refl pool⟩
      | some taken =>
        have first := supplied_appendBlock bal (allocated : _ = some (taken.1, taken.2))
        have went : Shelf (fun _ => True) rest (pool, cache) _ := ⟨first.balanced, trivial, first.shape⟩
        exact (ih { pool with allocator := taken.2 } _ sized first.balanced).mono (fun _ later => went.trans later)
          (fun _ later => went.trans later)
  written _ _ _ _ := trivial

-- `cached` is what the prefix cache holds; no call of the pool asks for it.
theorem action_balanced {sess : PoolSession V} {cached : Multiset Nat} (action : PoolAction V)
    (bal : Balanced sess.pool.allocator (cached + heldBy blockTable sess.sequences)) :
    ∃ next, sess.step action = .ok next ∧
      Balanced next.pool.allocator (cached + heldBy blockTable next.sequences) ∧
      next.pool.blockSize = sess.pool.blockSize := by
  have shelved : Shelved (fun _ => True) sess.pool.blockSize sess.pool.numHiddenLayers cached sess :=
    ⟨rfl, rfl, bal, fun _ _ => trivial⟩
  obtain ⟨next, acted, kept⟩ := shelved.step ⟨fun _ => suits_any _, fun _ => trivial, fun _ _ => trivial⟩
    (fun _ _ _ => trivial) action
  exact ⟨next, acted, kept.balanced, kept.blockSize⟩

inductive CacheMove (Links : Int → Int → Prop) : PrefixCache → PrefixCache → Prop
  | touch {cache : PrefixCache} {hash : Int} {entry : CacheEntry} (present : cache.entries.get? hash = some entry) :
      CacheMove Links cache (cache.touch hash entry)
  | register {cache : PrefixCache} {hash : Int} {entry : CacheEntry} (enabled : cache.enabled = true)
      (absent : cache.entries.get? hash = none) (stamped : entry.lastUsed = cache.clock + 1)
      (linked : Links entry.parentHash hash) :
      CacheMove Links cache (register cache hash entry)
  | drop {cache : PrefixCache} {item : Int × CacheEntry} : CacheMove Links cache (cache.dropEntry item)
  | clear {cache : PrefixCache} : CacheMove Links cache { cache with entries := .empty, byBlock := .empty }

abbrev CacheMoves (Links : Int → Int → Prop) : PrefixCache → PrefixCache → Prop := Relation.ReflTransGen (CacheMove Links)

variable {Links : Int → Int → Prop}

theorem CacheMoves.invariant {Inv : PrefixCache → Prop} (kept : ∀ cache next, CacheMove Links cache next → Inv cache → Inv next)
    {cache last : PrefixCache} (moves : CacheMoves Links cache last) (initially : Inv cache) : Inv last := by
  induction moves with
  | refl => exact initially
  | tail _ move held => exact kept _ _ move held

theorem matchLoop_moves {cache : PrefixCache} {hashes : List Int} {matched : List Nat}
    (ran : matchLoop alloc cache hashes = .ok (matched, after, next)) : CacheMoves Links cache next := by
  induction hashes generalizing alloc cache matched with
  | nil =>
    cases ran
    exact .refl
  | cons _ _ ih =>
    unfold matchLoop at ran
    split at ran
    case h_1 => grind
    case h_2 _ present =>
      split at ran
      case h_1 => cases ran
      case h_2 =>
        split at ran
        case h_1 => cases ran
        case h_2 looped =>
          cases ran
          exact .head (.touch present) (ih looped)

theorem insertLoop_moves {cache : PrefixCache} {depth : Nat} {parent : Int} {hashes : List Int} {table : List Nat}
    (enabled : cache.enabled = true) (linked : ∀ link ∈ (parent :: hashes).zip hashes, Links link.1 link.2)
    (ran : insertLoop alloc cache depth parent hashes table = .ok (after, next)) :
    CacheMoves Links cache next := by
  induction hashes generalizing alloc cache depth parent table with
  | nil =>
    cases ran
    exact .refl
  | cons _ _ ih =>
    rw [zip_cons_cons, forall_mem_cons] at linked
    cases table with
    | nil =>
      cases ran
      exact .refl
    | cons =>
      unfold insertLoop at ran
      split at ran
      case h_1 _ present => exact .head (.touch present) (ih enabled linked.2 ran)
      case h_2 absent =>
        split at ran
        case isTrue => exact ih enabled linked.2 ran
        case isFalse =>
          split at ran
          case h_1 => cases ran
          case h_2 =>
            exact .head
              (CacheMove.register enabled absent rfl linked.1)
              (ih enabled linked.2 ran)

theorem evictLoop_moves {cache : PrefixCache} {items : List (Int × CacheEntry)}
    (ran : evictLoop alloc cache items = .ok (after, next)) : CacheMoves Links cache next := by
  induction items generalizing alloc cache with
  | nil =>
    cases ran
    exact .refl
  | cons _ _ ih =>
    unfold evictLoop at ran
    split at ran
    case h_1 => cases ran
    case h_2 => exact .head .drop (ih ran)

theorem zip_chainFrom (blockHash : Int → List Nat → Int) (parent : Int) (blocks : List (List Nat)) :
    (parent :: chainFrom blockHash parent blocks).zip (chainFrom blockHash parent blocks) =
      (linksFrom blockHash parent blocks).map fun link => (link.1, blockHash link.1 link.2) := by
  induction blocks generalizing parent with
  | nil => rfl
  | cons _ _ ih => simp [chainFrom, linksFrom, ih]

theorem insert_moves {after : PagedCachePool V} {cache : PrefixCache} {tokens table : List Nat}
    (linked : ∀ link ∈ links blockHash pool.blockSize tokens, Links link.1 (blockHash link.1 link.2))
    (ran : PrefixCache.insert blockHash pool cache tokens table = .ok (after, next)) :
    CacheMoves Links cache next := by
  cases insert_inv ran with
  | inl registered =>
    obtain ⟨enabled, _, looped⟩ := registered
    refine insertLoop_moves enabled ?_ looped
    intro pair mem
    rw [hashChain, zip_chainFrom, mem_map] at mem
    obtain ⟨link, hashed, rfl⟩ := mem
    exact linked link hashed
  | inr => grind

/-! ## One call -/

abbrev CacheSession.held (session : CacheSession V) : Multiset Nat :=
  heldBy blockTable session.sequences

structure Audited (blockSize : Nat) (session : CacheSession V) : Prop where
  balanced : Balanced session.pool.allocator (↑(cachedBlocks session.prefixCache) + CacheSession.held session)
  inverse : Inverse session.prefixCache
  blockSize : session.pool.blockSize = blockSize

theorem Audited.new (numBlocks size numHiddenLayers : Nat) (zero : V) (enabled : Bool) :
    Audited size (.new numBlocks size numHiddenLayers zero enabled) where
  balanced := Balanced.new numBlocks
  inverse := .new enabled
  blockSize := rfl

inductive CacheStep (blockHash : Int → List Nat → Int) (session : CacheSession V) :
    CacheCall V → CacheSession V → Prop
  | pool {action : PoolAction V} {pooled : PoolSession V}
      (balanced : Balanced pooled.pool.allocator
        (↑(cachedBlocks session.prefixCache) + heldBy blockTable pooled.sequences))
      (blockSize : pooled.pool.blockSize = session.pool.blockSize) :
      CacheStep blockHash session (.pool action) { session with toPoolSession := pooled }
  | matched {tokens : List Nat} {blocks : List Nat} {allocator : BlockAllocator} {prefixCache : PrefixCache}
      (ran : matchPrefix blockHash session.pool session.prefixCache tokens =
        .ok (blocks, { session.pool with allocator }, prefixCache))
      (spec : Matched session.pool.allocator session.prefixCache (CacheSession.held session)
        (hashChain blockHash session.pool.blockSize tokens) blocks allocator prefixCache) :
      CacheStep blockHash session (.matchPrefix tokens)
        { pool := { session.pool with allocator }
          sequences := session.sequences ++ [(attach session.pool.blockSize {} blocks).2]
          prefixCache }
  | ignored {sequence : Nat} {tokens : List Nat} (unknown : session.sequences[sequence]? = none) :
      CacheStep blockHash session (.insert sequence tokens) session
  | inserted {sequence : Nat} {tokens : List Nat} {cache : PagedKVCache} {allocator : BlockAllocator}
      {prefixCache : PrefixCache} (placed : session.sequences[sequence]? = some cache)
      (ran : PrefixCache.insert blockHash session.pool session.prefixCache tokens cache.blockTable =
        .ok ({ session.pool with allocator }, prefixCache))
      (spec : Inserted session.pool.allocator session.prefixCache (CacheSession.held session)
        ((hashChain blockHash session.pool.blockSize tokens).zip cache.blockTable) allocator prefixCache) :
      CacheStep blockHash session (.insert sequence tokens)
        { session with pool := { session.pool with allocator }, prefixCache }
  -- `evict`, and `ensure_free`, which evicts as much as is missing.
  | evicted {request : CacheCall V} {count freed : Nat} {allocator : BlockAllocator} {prefixCache : PrefixCache}
      (asked : request = .evict count ∨
        ∃ numBlocks, request = .ensureFree numBlocks ∧ count = numBlocks - session.pool.allocator.numFree)
      (ran : evict session.pool.allocator session.prefixCache count = .ok (freed, allocator, prefixCache))
      (spec : Evicted session.pool.allocator session.prefixCache (CacheSession.held session) freed allocator
        prefixCache) :
      CacheStep blockHash session request { session with pool := { session.pool with allocator }, prefixCache }
  | cleared {allocator : BlockAllocator} (balanced : Balanced allocator (CacheSession.held session)) :
      CacheStep blockHash session .clear
        { session with
          pool := { session.pool with allocator }
          prefixCache := { session.prefixCache with entries := .empty, byBlock := .empty } }

theorem mem_held {sess : CacheSession V} (placed : sess.sequences[sequence]? = some cache) :
    ∀ block ∈ cache.blockTable, block ∈ CacheSession.held sess :=
  fun _ mem => mem_heldBy.mpr ⟨cache, mem_of_getElem? placed, mem⟩

theorem Audited.step {size : Nat} {sess : CacheSession V} (audited : Audited size sess)
    (blockHash : Int → List Nat → Int) (req : CacheCall V) :
    ∃ next, CacheSession.step blockHash sess req = .ok next ∧ CacheStep blockHash sess req next := by
  cases req with
  | pool action =>
    obtain ⟨_, acted, bal, sameSize⟩ := action_balanced action audited.balanced
    exact ⟨_, by simp only [CacheSession.step, acted], .pool bal sameSize⟩
  | matchPrefix tokens =>
    obtain ⟨_, after, next, ran, spec⟩ := matchPrefix_spec blockHash tokens audited.balanced
    exact ⟨_, by simp only [CacheSession.step, ran], .matched ran spec⟩
  | insert sequence tokens =>
    cases placed : sess.sequences[sequence]? with
    | none => exact ⟨_, by simp only [CacheSession.step, placed], .ignored placed⟩
    | some cache =>
      obtain ⟨after, next, ran, spec⟩ :=
        insert_spec blockHash tokens cache.blockTable audited.balanced audited.inverse (mem_held placed)
      exact ⟨_, by simp only [CacheSession.step, placed, ran], .inserted placed ran spec⟩
  | evict numBlocks =>
    obtain ⟨after, next, ran, spec⟩ := evict_spec numBlocks audited.balanced audited.inverse
    exact ⟨_, by simp only [CacheSession.step, ran], .evicted (.inl rfl) ran spec⟩
  | ensureFree numBlocks =>
    obtain ⟨after, next, ran, spec, looped⟩ := ensureFreeLoop_spec numBlocks audited.balanced audited.inverse
    have ended := looped _ (Nat.lt_succ_of_le (spare_le_size _ sess.prefixCache))
    exact ⟨_, by simp only [CacheSession.step, ensureFree, ended], .evicted (.inr ⟨numBlocks, rfl, rfl⟩) ran spec⟩
  | clear =>
    obtain ⟨after, ran, bal, -⟩ := clear_spec audited.balanced
    exact ⟨_, by simp only [CacheSession.step, ran], .cleared bal⟩

theorem CacheStep.audited {size : Nat} {sess next : CacheSession V} {req : CacheCall V}
    (went : CacheStep blockHash sess req next) (audited : Audited size sess) :
    Audited size next := by
  cases went with
  | pool bal sameSize => exact ⟨bal, audited.inverse, sameSize.trans audited.blockSize⟩
  | matched _ spec =>
    refine ⟨?_, ?_, audited.blockSize⟩
    · rw [spec.cached]
      apply balanced_push
      rw [attach_table]
      exact spec.balanced
    · intro block hash
      rw [spec.byBlock, spec.blockOf]
      exact audited.inverse block hash
  | ignored => exact audited
  | inserted _ _ spec => exact ⟨spec.balanced, spec.inverse, audited.blockSize⟩
  | evicted _ _ spec => exact ⟨spec.balanced, spec.inverse, audited.blockSize⟩
  | cleared bal =>
    refine ⟨?_, Inverse.new false, audited.blockSize⟩
    show Balanced _ (0 + _)
    rw [zero_add]
    exact bal

theorem CacheStep.moves {sess next : CacheSession V} {req : CacheCall V}
    (went : CacheStep blockHash sess req next)
    (linked : ∀ sequence tokens, req = .insert sequence tokens →
      ∀ link ∈ links blockHash sess.pool.blockSize tokens, Links link.1 (blockHash link.1 link.2)) :
    CacheMoves Links sess.prefixCache next.prefixCache := by
  cases went with
  | pool => exact .refl
  | matched ran =>
    cases matchPrefix_inv ran with
    | inl looped =>
      obtain ⟨_, looped⟩ := looped
      exact matchLoop_moves looped
    | inr unchanged => exact unchanged ▸ Relation.ReflTransGen.refl
  | ignored => exact .refl
  | inserted _ ran => exact insert_moves (linked _ _ rfl) ran
  | evicted _ ran => exact evictLoop_moves (evict_inv ran)
  | cleared => exact .single .clear

theorem calls_reach {Inv : PrefixCache → Prop} {enabled : Bool} {calls : List (CacheCall V)}
    (blockHash : Int → List Nat → Int) (numBlocks size numHiddenLayers : Nat) (zero : V)
    (kept : ∀ cache next, CacheMove Links cache next → Inv cache → Inv next) (initially : Inv (.new enabled))
    (linked : ∀ req ∈ calls, ∀ sequence tokens, req = .insert sequence tokens →
      ∀ link ∈ links blockHash size tokens, Links link.1 (blockHash link.1 link.2)) :
    ∃ last, run (CacheSession.step blockHash) (.new numBlocks size numHiddenLayers zero enabled) calls = .ok last ∧
      Audited size last ∧ Inv last.prefixCache := by
  refine run_total_along ?_ ⟨.new numBlocks size numHiddenLayers zero enabled, initially⟩ (along_of_forall linked _)
  intro sess req held links
  obtain ⟨audited, inv⟩ := held
  obtain ⟨next, ran, went⟩ := audited.step blockHash req
  refine ⟨next, ran, went.audited audited, (went.moves ?_).invariant kept inv⟩
  rw [audited.blockSize]
  exact links

end Nanoserve.Verified
