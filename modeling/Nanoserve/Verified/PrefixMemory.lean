import Nanoserve.Engine.PrefixCache
import Nanoserve.Verified.PagedCache

/-! # The prefix cache's references

The cache holds one reference on every block it has an entry for.
-/

namespace Nanoserve.Verified

open Engine Lib PrefixCache Dict
open List hiding attach

variable {V : Type}
variable {cache next : PrefixCache} {hash : Int} {block : Nat} {alloc : BlockAllocator} {rest : Multiset Nat}
  {pool : PagedCachePool V} {blockHash : Int → List Nat → Int} {tokens : List Nat} {item : Int × CacheEntry}

/-- The physical block registered under a hash. -/
def blockOf (cache : PrefixCache) (hash : Int) : Option Nat := (cache.entries.get? hash).map CacheEntry.blockId

/-- The blocks the cache holds a reference on. -/
def cachedBlocks (cache : PrefixCache) : List Nat := cache.entries.values.map CacheEntry.blockId

/-- `_entries` and `_by_block` are inverse to each other. -/
def Inverse (cache : PrefixCache) : Prop :=
  ∀ block hash, cache.byBlock.get? block = some hash ↔ blockOf cache hash = some block

theorem blockOf_eq_some :
    blockOf cache hash = some block ↔ ∃ entry, (hash, entry) ∈ cache.entries.items ∧ entry.blockId = block := by
  simp only [blockOf, Option.map_eq_some_iff, get?_eq_some]

theorem mem_cachedBlocks : block ∈ cachedBlocks cache ↔ ∃ hash, blockOf cache hash = some block := by
  simp only [cachedBlocks, values, map_map, mem_map, Prod.exists, Function.comp_apply,
    blockOf_eq_some]

theorem Inverse.hash_unique (inverse : Inverse cache) {first second : Int} (left : blockOf cache first = some block)
    (right : blockOf cache second = some block) : first = second :=
  Option.some.inj (((inverse block first).mpr left).symm.trans ((inverse block second).mpr right))

theorem Inverse.nodup (inverse : Inverse cache) : (cachedBlocks cache).Nodup := by
  have itemsNodup := Nodup.of_map _ cache.entries.nodupKeys
  rw [cachedBlocks, values, map_map]
  refine Nodup.map_on ?_ itemsNodup
  intro first firstIn second secondIn same
  obtain ⟨_, firstEntry⟩ := first
  obtain ⟨_, secondEntry⟩ := second
  have hashes := inverse.hash_unique (blockOf_eq_some.mpr ⟨firstEntry, firstIn, same⟩)
    (blockOf_eq_some.mpr ⟨secondEntry, secondIn, rfl⟩)
  subst hashes
  rw [eq_of_mem firstIn secondIn]

theorem Inverse.new (enabled : Bool) : Inverse (.new enabled) := by
  intro block hash
  simp [PrefixCache.new, blockOf]

/-! ## Lookup -/

theorem blockOf_touch {entry : CacheEntry} (present : cache.entries.get? hash = some entry) :
    blockOf (cache.touch hash entry) = blockOf cache := by
  funext other
  simp only [blockOf, touch, get?_set]
  split
  case isTrue same => rw [same, present]; rfl
  case isFalse => rfl

theorem cachedBlocks_touch {entry : CacheEntry} (present : cache.entries.get? hash = some entry) :
    cachedBlocks (cache.touch hash entry) = cachedBlocks cache := by
  simp only [cachedBlocks, values, touch, items_set_of_present present, map_map]
  apply map_congr_left
  intro item mem
  simp only [Function.comp_apply]
  split
  case isTrue same =>
    have itemEq : item.2 = entry := by
      have stored : (hash, item.2) ∈ cache.entries.items := by
        rw [← same]
        exact mem
      exact eq_of_mem stored (get?_eq_some.mp present)
    rw [itemEq]
  case isFalse => rfl

/-- What `match` did: the blocks of the longest run of known hashes, each with one more reference. -/
structure Matched (allocator : BlockAllocator) (cache : PrefixCache) (rest : Multiset Nat) (hashes : List Int)
    (matched : List Nat) (after : BlockAllocator) (next : PrefixCache) : Prop where
  balanced : Balanced after (↑matched + (↑(cachedBlocks cache) + rest))
  free : after.free = allocator.free
  numBlocks : after.numBlocks = allocator.numBlocks
  blockOf : blockOf next = Verified.blockOf cache
  byBlock : next.byBlock = cache.byBlock
  cached : cachedBlocks next = cachedBlocks cache
  enabled : next.enabled = cache.enabled
  found : matched.map some = (hashes.take matched.length).map (Verified.blockOf cache)

theorem matchLoop_spec (hashes : List Int) (bal : Balanced alloc (↑(cachedBlocks cache) + rest)) :
    ∃ matched after next, matchLoop alloc cache hashes = .ok (matched, after, next) ∧
      Matched alloc cache rest hashes matched after next := by
  induction hashes generalizing alloc cache rest with
  | nil => exact ⟨[], alloc, cache, rfl, by simpa using bal, rfl, rfl, rfl, rfl, rfl, rfl, rfl⟩
  | cons hash _ ih =>
    unfold matchLoop
    cases present : cache.entries.get? hash with
    | none => exact ⟨[], alloc, cache, rfl, by simpa using bal, rfl, rfl, rfl, rfl, rfl, rfl, rfl⟩
    | some entry =>
      have registered : blockOf cache hash = some entry.blockId := by simp [blockOf, present]
      have held : entry.blockId ∈ (↑(cachedBlocks cache) + rest : Multiset Nat) :=
        Multiset.mem_add.mpr (.inl (mem_cachedBlocks.mpr ⟨hash, registered⟩))
      obtain ⟨middle, incremented, middleBalanced, middleBlocks, middleFree⟩ := bal.incref_spec held
      have continued : Balanced middle (↑(cachedBlocks (cache.touch hash entry)) + (entry.blockId ::ₘ rest)) := by
        rw [cachedBlocks_touch present, Multiset.add_cons]
        exact middleBalanced
      obtain ⟨matched, after, next, matchedEq, spec⟩ := ih continued
      refine ⟨entry.blockId :: matched, after, next, by simp only [incremented, matchedEq], ?_,
        spec.free.trans middleFree, spec.numBlocks.trans middleBlocks, spec.blockOf.trans (blockOf_touch present),
        spec.byBlock, spec.cached.trans (cachedBlocks_touch present), spec.enabled, ?_⟩
      · have taken := spec.balanced
        rw [cachedBlocks_touch present, Multiset.add_cons, Multiset.add_cons] at taken
        rw [← Multiset.cons_coe, Multiset.cons_add]
        exact taken
      · have rest := spec.found
        rw [blockOf_touch present] at rest
        simp [rest, registered]

theorem matchPrefix_spec (blockHash : Int → List Nat → Int) (tokens : List Nat)
    (bal : Balanced pool.allocator (↑(cachedBlocks cache) + rest)) :
    ∃ matched after next, matchPrefix blockHash pool cache tokens =
        .ok (matched, { pool with allocator := after }, next) ∧
      Matched pool.allocator cache rest (hashChain blockHash pool.blockSize tokens) matched after next := by
  unfold matchPrefix
  by_cases enabled : cache.enabled
  · obtain ⟨matched, after, next, looped, spec⟩ :=
      matchLoop_spec (hashChain blockHash pool.blockSize tokens) bal
    exact ⟨matched, after, next, by simp only [if_pos enabled, looped], spec⟩
  · exact ⟨[], pool.allocator, cache, by rw [if_neg enabled],
      by simpa using bal, rfl, rfl, rfl, rfl, rfl, rfl, rfl⟩

theorem matchPrefix_inv {after : PagedCachePool V} {matched : List Nat}
    (ran : matchPrefix blockHash pool cache tokens = .ok (matched, after, next)) :
    (∃ alloc, matchLoop pool.allocator cache (hashChain blockHash pool.blockSize tokens) =
      .ok (matched, alloc, next)) ∨ next = cache := by
  unfold matchPrefix at ran
  split at ran
  case isTrue =>
    split at ran
    case h_1 => cases ran
    case h_2 looped =>
      cases ran
      exact .inl ⟨_, looped⟩
  case isFalse =>
    cases ran
    exact .inr rfl

theorem matchPrefix_disabled (disabled : cache.enabled = false) :
    matchPrefix blockHash pool cache tokens = .ok ([], pool, cache) := by
  simp [matchPrefix, disabled]

theorem nodup_of_found (inverse : Inverse cache) {hashes : List Int} {matched : List Nat} (nodup : hashes.Nodup)
    (found : matched.map some = (hashes.take matched.length).map (blockOf cache)) : matched.Nodup := by
  have takenNodup : (hashes.take matched.length).Nodup := nodup.sublist (take_sublist _ _)
  have imageNodup : ((hashes.take matched.length).map (blockOf cache)).Nodup := by
    refine Nodup.map_on ?_ takenNodup
    intro first firstIn second secondIn same
    have image : blockOf cache first ∈ matched.map some := by
      rw [found]
      exact mem_map_of_mem firstIn
    obtain ⟨_, -, blockEq⟩ := mem_map.mp image
    exact inverse.hash_unique blockEq.symm (same ▸ blockEq.symm)
  rw [← found] at imageNodup
  exact imageNodup.of_map

/-! ## Insertion -/

/-- What `insert` did: new entries for some of the pairs offered to it, each with a reference of the
cache's own. -/
structure Inserted (allocator : BlockAllocator) (cache : PrefixCache) (rest : Multiset Nat)
    (offered : List (Int × Nat)) (after : BlockAllocator) (next : PrefixCache) : Prop where
  balanced : Balanced after (↑(cachedBlocks next) + rest)
  inverse : Inverse next
  free : after.free = allocator.free
  numBlocks : after.numBlocks = allocator.numBlocks
  enabled : next.enabled = cache.enabled
  old : ∀ hash block, blockOf cache hash = some block → blockOf next hash = some block
  new : ∀ hash block, blockOf next hash = some block → blockOf cache hash = some block ∨ (hash, block) ∈ offered

/-- One entry more. -/
def register (cache : PrefixCache) (hash : Int) (entry : CacheEntry) : PrefixCache :=
  { cache with
    clock := cache.clock + 1
    entries := cache.entries.set hash entry
    byBlock := cache.byBlock.set entry.blockId hash }

theorem blockOf_register (cache : PrefixCache) (hash : Int) (entry : CacheEntry) (other : Int) :
    blockOf (register cache hash entry) other = if other = hash then some entry.blockId else blockOf cache other := by
  simp only [blockOf, register, get?_set]
  split <;> rfl

theorem cachedBlocks_register (entry : CacheEntry) (absent : cache.entries.get? hash = none) :
    cachedBlocks (register cache hash entry) = cachedBlocks cache ++ [entry.blockId] := by
  simp [cachedBlocks, values, register, items_set_of_absent absent]

theorem Inverse.register {cache : PrefixCache} {hash : Int} {entry : CacheEntry} (inverse : Inverse cache)
    (absent : cache.entries.get? hash = none) (untracked : cache.byBlock.get? entry.blockId = none) :
    Inverse (register cache hash entry) := by
  intro block other
  rw [blockOf_register]
  have tracked : (Verified.register cache hash entry).byBlock.get? block =
      if block = entry.blockId then some hash else cache.byBlock.get? block := get?_set _ _ _ _
  rw [tracked]
  have before := inverse block other
  by_cases sameBlock : block = entry.blockId
  · subst sameBlock
    rw [untracked] at before
    by_cases sameHash : other = hash
    · simp [sameHash]
    · rw [if_pos rfl, if_neg sameHash, ← before]
      simp [Ne.symm sameHash]
  · rw [if_neg sameBlock, before]
    by_cases sameHash : other = hash
    · subst sameHash
      simp [blockOf, absent, Ne.symm sameBlock]
    · rw [if_neg sameHash]

theorem insertLoop_spec (depth : Nat) (parent : Int) (hashes : List Int) (table : List Nat)
    (bal : Balanced alloc (↑(cachedBlocks cache) + rest)) (inverse : Inverse cache)
    (members : ∀ block ∈ table, block ∈ rest) :
    ∃ after next, insertLoop alloc cache depth parent hashes table = .ok (after, next) ∧
      Inserted alloc cache rest (hashes.zip table) after next := by
  induction hashes generalizing alloc cache depth parent table with
  | nil => exact ⟨alloc, cache, rfl, bal, inverse, rfl, rfl, rfl, fun _ _ eq => eq, fun _ _ eq => .inl eq⟩
  | cons hash _ ih =>
    cases table with
    | nil => exact ⟨alloc, cache, rfl, bal, inverse, rfl, rfl, rfl, fun _ _ eq => eq, fun _ _ eq => .inl eq⟩
    | cons block table =>
      have tableMembers : ∀ other ∈ table, other ∈ rest := fun other mem => members other (mem_cons_of_mem _ mem)
      unfold insertLoop
      cases present : cache.entries.get? hash with
      | some existing =>
        have touchedInverse : Inverse (cache.touch hash existing) := by
          intro other otherHash
          rw [blockOf_touch present]
          exact inverse other otherHash
        have touchedBalanced : Balanced alloc (↑(cachedBlocks (cache.touch hash existing)) + rest) := by
          rw [cachedBlocks_touch present]
          exact bal
        obtain ⟨after, next, inserted, spec⟩ :=
          ih (depth + 1) hash table touchedBalanced touchedInverse tableMembers
        refine ⟨after, next, inserted, spec.balanced, spec.inverse, spec.free, spec.numBlocks, spec.enabled, ?_, ?_⟩
        · intro other otherBlock registered
          exact spec.old other otherBlock (by rw [blockOf_touch present]; exact registered)
        · intro other otherBlock registered
          have origin := spec.new other otherBlock registered
          rw [blockOf_touch present] at origin
          exact origin.imp_right (mem_cons_of_mem _)
      | none =>
        cases tracked : cache.byBlock.get? block with
        | some =>
          obtain ⟨after, next, inserted, spec⟩ := ih (depth + 1) hash table bal inverse tableMembers
          refine ⟨after, next, by simpa using inserted, spec.balanced, spec.inverse, spec.free, spec.numBlocks,
            spec.enabled, spec.old, ?_⟩
          intro other otherBlock registered
          exact (spec.new other otherBlock registered).imp_right (mem_cons_of_mem _)
        | none =>
          have held : block ∈ (↑(cachedBlocks cache) + rest : Multiset Nat) :=
            Multiset.mem_add.mpr (.inr (members block mem_cons_self))
          obtain ⟨middle, incremented, middleBalanced, middleBlocks, middleFree⟩ := bal.incref_spec held
          let entry : CacheEntry := { blockId := block, parentHash := parent, lastUsed := cache.clock + 1, depth }
          have continued : Balanced middle (↑(cachedBlocks (register cache hash entry)) + rest) := by
            rw [cachedBlocks_register entry present, coe_concat_add]
            exact middleBalanced
          obtain ⟨after, next, inserted, spec⟩ := ih (depth + 1) hash table continued
            (inverse.register present tracked) tableMembers
          refine ⟨after, next, ?_, spec.balanced, spec.inverse, spec.free.trans middleFree,
            spec.numBlocks.trans middleBlocks, spec.enabled, ?_, ?_⟩
          · simp only [incremented, Option.isSome_none, Bool.false_eq_true, if_false]
            exact inserted
          · intro other otherBlock registered
            refine spec.old other otherBlock ?_
            rw [blockOf_register, if_neg]
            · exact registered
            · intro same
              simp [blockOf, same, present] at registered
          · intro other otherBlock registered
            rcases spec.new other otherBlock registered with before | later
            · rw [blockOf_register] at before
              split at before
              case isTrue same =>
                cases before
                exact .inr (by simp [same, entry])
              case isFalse => exact .inl before
            · exact .inr (mem_cons_of_mem _ later)

theorem insert_spec (blockHash : Int → List Nat → Int) (tokens : List Nat) (table : List Nat)
    (bal : Balanced pool.allocator (↑(cachedBlocks cache) + rest)) (inverse : Inverse cache)
    (members : ∀ block ∈ table, block ∈ rest) :
    ∃ after next, insert blockHash pool cache tokens table = .ok ({ pool with allocator := after }, next) ∧
      Inserted pool.allocator cache rest ((hashChain blockHash pool.blockSize tokens).zip table) after next := by
  unfold PrefixCache.insert
  by_cases enabled : cache.enabled
  · obtain ⟨after, next, looped, spec⟩ :=
      insertLoop_spec 0 ROOT_HASH (hashChain blockHash pool.blockSize tokens) table bal inverse members
    exact ⟨after, next, by simp only [if_pos enabled, looped], spec⟩
  · exact ⟨pool.allocator, cache, by rw [if_neg enabled], bal, inverse, rfl, rfl, rfl,
      fun _ _ eq => eq, fun _ _ eq => .inl eq⟩

theorem insert_inv {after : PagedCachePool V} {table : List Nat}
    (ran : PrefixCache.insert blockHash pool cache tokens table = .ok (after, next)) :
    (cache.enabled = true ∧ ∃ alloc, insertLoop pool.allocator cache 0 ROOT_HASH
      (hashChain blockHash pool.blockSize tokens) table = .ok (alloc, next)) ∨
    (cache.enabled = false ∧ next = cache) := by
  unfold PrefixCache.insert at ran
  split at ran
  case isTrue enabled =>
    split at ran
    case h_1 => cases ran
    case h_2 looped =>
      cases ran
      exact .inl ⟨enabled, _, looped⟩
  case isFalse disabled =>
    cases ran
    exact .inr ⟨Bool.eq_false_iff.mpr disabled, rfl⟩

theorem insert_disabled {table : List Nat} (disabled : cache.enabled = false) :
    PrefixCache.insert blockHash pool cache tokens table = .ok (pool, cache) := by
  simp [PrefixCache.insert, disabled]

/-! ## Eviction -/

/-- The cached blocks nobody else holds. -/
def spare (rest : Multiset Nat) (cache : PrefixCache) : Nat :=
  (cache.entries.items.filter fun item => item.2.blockId ∉ rest).length

/-- What eviction did: `freed` entries nobody else was using are gone. -/
structure Evicted (allocator : BlockAllocator) (cache : PrefixCache) (rest : Multiset Nat) (freed : Nat)
    (after : BlockAllocator) (next : PrefixCache) : Prop where
  balanced : Balanced after (↑(cachedBlocks next) + rest)
  inverse : Inverse next
  numBlocks : after.numBlocks = allocator.numBlocks
  enabled : next.enabled = cache.enabled
  sublist : next.entries.items.Sublist cache.entries.items
  numFree : after.numFree = allocator.numFree + freed
  spare : spare rest next + freed = Verified.spare rest cache

theorem Evicted.refl (bal : Balanced alloc (↑(cachedBlocks cache) + rest)) (inverse : Inverse cache) :
    Evicted alloc cache rest 0 alloc cache :=
  ⟨bal, inverse, rfl, rfl, .refl _, rfl, rfl⟩

theorem Evicted.trans {alloc middle after : BlockAllocator} {cache between next : PrefixCache}
    {rest : Multiset Nat} {first second : Nat} (left : Evicted alloc cache rest first middle between)
    (right : Evicted middle between rest second after next) :
    Evicted alloc cache rest (first + second) after next where
  balanced := right.balanced
  inverse := right.inverse
  numBlocks := right.numBlocks.trans left.numBlocks
  enabled := right.enabled.trans left.enabled
  sublist := right.sublist.trans left.sublist
  numFree := by rw [right.numFree, left.numFree, Nat.add_assoc]
  spare := by rw [← left.spare, ← right.spare]; omega

theorem Evicted.blockOf_of {after : BlockAllocator} {freed : Nat}
    (evicted : Evicted alloc cache rest freed after next) (registered : blockOf next hash = some block) :
    blockOf cache hash = some block := by
  obtain ⟨entry, mem, blockEq⟩ := blockOf_eq_some.mp registered
  exact blockOf_eq_some.mpr ⟨entry, evicted.sublist.subset mem, blockEq⟩

theorem blockOf_dropEntry (cache : PrefixCache) (item : Int × CacheEntry) (hash : Int) :
    blockOf (cache.dropEntry item) hash = if hash = item.1 then none else blockOf cache hash := by
  simp only [blockOf, dropEntry, get?_erase]
  split <;> rfl

theorem Inverse.dropEntry (inverse : Inverse cache) (mem : item ∈ cache.entries.items) :
    Inverse (cache.dropEntry item) := by
  have registered := blockOf_eq_some.mpr ⟨item.2, mem, rfl⟩
  intro block hash
  rw [blockOf_dropEntry]
  have tracked : (cache.dropEntry item).byBlock.get? block =
      if block = item.2.blockId then none else cache.byBlock.get? block := get?_erase _ _ _
  rw [tracked]
  by_cases sameHash : hash = item.1
  · subst sameHash
    by_cases sameBlock : block = item.2.blockId
    · simp [sameBlock]
    · rw [if_neg sameBlock, inverse block item.1, registered]
      simp [Ne.symm sameBlock]
  · rw [if_neg sameHash, ← inverse block hash]
    by_cases sameBlock : block = item.2.blockId
    · subst sameBlock
      have key := (inverse item.2.blockId item.1).mpr registered
      rw [if_pos rfl, key]
      simp [Ne.symm sameHash]
    · rw [if_neg sameBlock]

theorem dropEntry_spec (bal : Balanced alloc (↑(cachedBlocks cache) + rest)) (inverse : Inverse cache)
    (mem : item ∈ cache.entries.items) (unpinned : item.2.blockId ∉ rest) :
    ∃ freed after, alloc.decref item.2.blockId = .ok (freed, after) ∧
      Evicted alloc cache rest 1 after (cache.dropEntry item) := by
  have itemsPerm : cache.entries.items.Perm (item :: (cache.entries.erase item.1).items) :=
    items_perm_erase mem
  have cachedEq : (↑(cachedBlocks cache) : Multiset Nat) =
      item.2.blockId ::ₘ ↑(cachedBlocks (cache.dropEntry item)) := by
    have mapped := (itemsPerm.map Prod.snd).map CacheEntry.blockId
    exact Multiset.coe_eq_coe.mpr mapped
  have stillInverse := inverse.dropEntry mem
  have unheld : item.2.blockId ∉ (↑(cachedBlocks (cache.dropEntry item)) + rest : Multiset Nat) := by
    rw [Multiset.mem_add, Multiset.mem_coe, mem_cachedBlocks]
    rintro (⟨hash, registered⟩ | pinned)
    · rw [blockOf_dropEntry] at registered
      split at registered
      · cases registered
      · have same := inverse.hash_unique registered (blockOf_eq_some.mpr ⟨item.2, mem, rfl⟩)
        contradiction
    · exact unpinned pinned
  rw [cachedEq, Multiset.cons_add] at bal
  obtain ⟨freed, after, decremented, afterBalanced, sameBlocks, counted⟩ := bal.decref_spec
  rw [if_neg unheld] at counted
  refine ⟨freed, after, decremented, afterBalanced, stillInverse, sameBlocks, rfl, filter_sublist, counted, ?_⟩
  have lengths := (itemsPerm.filter fun other => decide (other.2.blockId ∉ rest)).length_eq
  simp only [filter_cons, unpinned, not_false_eq_true, decide_true, if_true, length_cons] at lengths
  exact lengths.symm

theorem evictLoop_spec (items : List (Int × CacheEntry))
    (bal : Balanced alloc (↑(cachedBlocks cache) + rest)) (inverse : Inverse cache)
    (members : ∀ item ∈ items, item ∈ cache.entries.items ∧ item.2.blockId ∉ rest)
    (distinct : (items.map Prod.fst).Nodup) :
    ∃ after next, evictLoop alloc cache items = .ok (after, next) ∧
      Evicted alloc cache rest items.length after next := by
  induction items generalizing alloc cache with
  | nil => exact ⟨alloc, cache, rfl, .refl bal inverse⟩
  | cons item items ih =>
    obtain ⟨mem, unpinned⟩ := members item mem_cons_self
    obtain ⟨_, _, decremented, dropped⟩ := dropEntry_spec bal inverse mem unpinned
    simp only [map_cons, nodup_cons] at distinct
    have remaining : ∀ other ∈ items, other ∈ (cache.dropEntry item).entries.items ∧ other.2.blockId ∉ rest := by
      intro other otherIn
      obtain ⟨inCache, free⟩ := members other (mem_cons_of_mem _ otherIn)
      refine ⟨mem_items_erase.mpr ⟨inCache, fun same => distinct.1 ?_⟩, free⟩
      rw [← same]
      exact mem_map_of_mem otherIn
    obtain ⟨after, next, looped, evicted⟩ :=
      ih dropped.balanced dropped.inverse remaining distinct.2
    refine ⟨after, next, by simp only [evictLoop, decremented, looped], ?_⟩
    rw [length_cons, Nat.add_comm]
    exact dropped.trans evicted

theorem evict_inv {after : BlockAllocator} {numBlocks freed : Nat}
    (ran : evict alloc cache numBlocks = .ok (freed, after, next)) :
    evictLoop alloc cache ((evictable alloc cache).take numBlocks) = .ok (after, next) := by
  unfold evict at ran
  dsimp only at ran
  split at ran
  case h_1 => cases ran
  case h_2 looped =>
    cases ran
    exact looped

theorem evict_of_enough {numBlocks : Nat} (enough : ¬alloc.numFree < numBlocks) :
    evict alloc cache (numBlocks - alloc.numFree) = .ok (0, alloc, cache) := by
  have unasked : numBlocks - alloc.numFree = 0 := by omega
  simp [evict, unasked, evictLoop]

section Evicting

variable (numBlocks : Nat) (bal : Balanced alloc (↑(cachedBlocks cache) + rest)) (inverse : Inverse cache)
include bal inverse

theorem refCount_eq_one_iff (mem : item ∈ cache.entries.items) :
    alloc.refCount item.2.blockId = 1 ↔ item.2.blockId ∉ rest := by
  have cached : item.2.blockId ∈ cachedBlocks cache :=
    mem_cachedBlocks.mpr ⟨item.1, blockOf_eq_some.mpr ⟨item.2, mem, rfl⟩⟩
  rw [BlockAllocator.refCount, bal.refs, Multiset.count_add, Multiset.coe_count,
    count_eq_one_of_mem inverse.nodup cached, ← Multiset.count_eq_zero]
  omega

theorem evictable_perm :
    (evictable alloc cache).Perm (cache.entries.items.filter fun item => item.2.blockId ∉ rest) := by
  refine (perm_insertionSort _ _).trans (Perm.of_eq ?_)
  apply filter_congr
  intro item mem
  simp only [decide_eq_decide]
  exact refCount_eq_one_iff bal inverse mem

theorem evict_spec :
    ∃ after next, evict alloc cache numBlocks = .ok (min numBlocks (spare rest cache), after, next) ∧
      Evicted alloc cache rest (min numBlocks (spare rest cache)) after next := by
  have perm := evictable_perm bal inverse
  have count : ((evictable alloc cache).take numBlocks).length = min numBlocks (spare rest cache) := by
    rw [length_take, perm.length_eq]
    rfl
  have members : ∀ item ∈ (evictable alloc cache).take numBlocks,
      item ∈ cache.entries.items ∧ item.2.blockId ∉ rest := by
    intro item mem
    have found := perm.subset (mem_of_mem_take mem)
    simpa using mem_filter.mp found
  have distinct : (((evictable alloc cache).take numBlocks).map Prod.fst).Nodup := by
    have keys : ((evictable alloc cache).map Prod.fst).Nodup := by
      rw [(perm.map Prod.fst).nodup_iff]
      exact cache.entries.nodupKeys.sublist (filter_sublist.map Prod.fst)
    exact keys.sublist ((take_sublist _ _).map Prod.fst)
  obtain ⟨after, next, looped, evicted⟩ := evictLoop_spec _ bal inverse members distinct
  rw [count] at evicted
  exact ⟨after, next, by simp only [evict, looped, count], evicted⟩

theorem evict_of_spare_eq_zero (none : spare rest cache = 0) :
    evict alloc cache numBlocks = .ok (0, alloc, cache) := by
  have empty : evictable alloc cache = [] := by
    rw [← length_eq_zero_iff, (evictable_perm bal inverse).length_eq]
    exact none
  simp [evict, empty, evictLoop]

-- The first round asks for all that is missing.  If it gets less, a second one finds nothing to take.
theorem ensureFreeLoop_spec :
    ∃ after next, evict alloc cache (numBlocks - alloc.numFree) =
        .ok (min (numBlocks - alloc.numFree) (spare rest cache), after, next) ∧
      Evicted alloc cache rest (min (numBlocks - alloc.numFree) (spare rest cache)) after next ∧
      ∀ fuel, spare rest cache < fuel → ensureFreeLoop numBlocks alloc cache fuel =
        .ok (decide (numBlocks ≤ alloc.numFree + spare rest cache), after, next) := by
  obtain ⟨after, next, evictedEq, evicted⟩ := evict_spec (numBlocks - alloc.numFree) bal inverse
  refine ⟨after, next, evictedEq, evicted, ?_⟩
  intro fuel enough
  have fewer := evicted.spare
  have counted := evicted.numFree
  cases fuel with
  | zero => omega
  | succ fuel =>
    unfold ensureFreeLoop
    by_cases short : alloc.numFree < numBlocks
    · simp only [if_pos short, evictedEq]
      by_cases nothing : min (numBlocks - alloc.numFree) (spare rest cache) = 0
      · rw [if_pos nothing, decide_eq_false (by omega)]
      · rw [if_neg nothing]
        cases fuel with
        | zero => omega
        | succ =>
          unfold ensureFreeLoop
          by_cases still : after.numFree < numBlocks
          · rw [if_pos still, evict_of_spare_eq_zero _ evicted.balanced evicted.inverse (by omega),
              decide_eq_false (by omega)]
            rfl
          · rw [if_neg still, decide_eq_true (by omega)]
    · rw [evict_of_enough short] at evictedEq
      injection evictedEq with same
      injection same with _ states
      rw [if_neg short, decide_eq_true (by omega), states]

end Evicting

theorem spare_le_size (rest : Multiset Nat) (cache : PrefixCache) : spare rest cache ≤ cache.entries.size :=
  length_filter_le _ _

theorem ensureFree_spec (numBlocks : Nat) (bal : Balanced pool.allocator (↑(cachedBlocks cache) + rest))
    (inverse : Inverse cache) :
    ∃ freed after next, ensureFree pool cache numBlocks =
        .ok (decide (numBlocks ≤ pool.allocator.numFree + spare rest cache), { pool with allocator := after }, next) ∧
      Evicted pool.allocator cache rest freed after next ∧
      freed = min (numBlocks - pool.allocator.numFree) (spare rest cache) := by
  obtain ⟨after, next, -, evicted, looped⟩ := ensureFreeLoop_spec numBlocks bal inverse
  have ended := looped _ (Nat.lt_succ_of_le (spare_le_size rest cache))
  exact ⟨_, after, next, by simp only [ensureFree, ended], evicted, rfl⟩

theorem clear_spec (bal : Balanced pool.allocator (↑(cachedBlocks cache) + rest)) :
    ∃ after, PrefixCache.clear pool cache =
        .ok ({ pool with allocator := after }, { cache with entries := .empty, byBlock := .empty }) ∧
      Balanced after rest ∧ after.numBlocks = pool.allocator.numBlocks := by
  obtain ⟨after, released, afterBalanced, sameBlocks, -⟩ := bal.decrefAll_spec
  have releasedEq : pool.allocator.decrefAll (cache.entries.values.map CacheEntry.blockId) = .ok after := released
  exact ⟨after, by simp only [PrefixCache.clear, releasedEq], afterBalanced, sameBlocks⟩

theorem foldl_appendBlock (size : Nat) (cache : PagedKVCache) (blocks : List Nat) :
    blocks.foldl (PagedKVCache.appendBlock size) cache =
      { cache with
        blockTable := cache.blockTable ++ blocks
        slots := cache.slots ++ slots size blocks } := by
  induction blocks generalizing cache with
  | nil => simp
  | cons _ _ ih =>
    rw [foldl_cons, ih]
    simp [PagedKVCache.appendBlock]

theorem attach_spec {size : Nat} {blocks : List Nat} (pos : 0 < size) (nodup : blocks.Nodup) :
    ∃ cache, attach size {} blocks = (blocks.length * size, cache) ∧ WellFormed size cache ∧
      cache.blockTable = blocks ∧ cache.numTokens = blocks.length * size := by
  cases blocks with
  | nil => exact ⟨{}, by simp [attach], .empty pos, rfl, by simp⟩
  | cons =>
    simp only [attach, foldl_appendBlock]
    exact ⟨_, rfl, ⟨⟨by simpa using nodup, by simp⟩, by simp only [nil_append]; rw [ceilDiv_mul pos]⟩,
      by simp, rfl⟩

end Nanoserve.Verified
