import Nanoserve.Verified.CacheSession

/-! # Eviction

`ensure_free` evicts exactly what is missing, and of the entries nobody uses it takes those that
have not been used for longest.
-/

namespace Nanoserve.Verified

open Engine Lib PrefixCache List

variable {V : Type} {Links : Int → Int → Prop}
variable {cache next : PrefixCache} {alloc after : BlockAllocator} {size freed : Nat}
  {sess : CacheSession V}

structure Ticked (cache : PrefixCache) : Prop where
  past : ∀ item ∈ cache.entries.items, item.2.lastUsed ≤ cache.clock
  distinct : ∀ first ∈ cache.entries.items, ∀ second ∈ cache.entries.items,
    first.2.lastUsed = second.2.lastUsed → first = second

theorem Ticked.set {hash : Int} {entry : CacheEntry} (ticked : Ticked cache) (clock : next.clock = cache.clock + 1)
    (entries : next.entries = cache.entries.set hash entry) (stamped : entry.lastUsed = cache.clock + 1) :
    Ticked next where
  past := by
    intro item mem
    rw [entries, Dict.mem_items_set] at mem
    cases mem with
    | inl same => rw [same, clock, stamped]
    | inr old => exact clock ▸ Nat.le_succ_of_le (ticked.past item old.1)
  distinct := by
    intro first firstIn second secondIn same
    rw [entries, Dict.mem_items_set] at firstIn secondIn
    -- The clock is ahead of every use so far.
    have ahead : ∀ item ∈ cache.entries.items, item.2.lastUsed ≠ entry.lastUsed := by
      intro item mem
      have bound := ticked.past item mem
      omega
    cases firstIn with
    | inl => grind
    | inr firstOld =>
      cases secondIn with
      | inl => exact absurd (by grind) (ahead first firstOld.1)
      | inr secondOld => exact ticked.distinct first firstOld.1 second secondOld.1 same

theorem Ticked.subset (ticked : Ticked cache) (clock : next.clock = cache.clock)
    (included : next.entries.items ⊆ cache.entries.items) : Ticked next where
  past item mem := clock ▸ ticked.past item (included mem)
  distinct first firstIn second secondIn := ticked.distinct first (included firstIn) second (included secondIn)

theorem CacheMove.ticked (move : CacheMove Links cache next) (ticked : Ticked cache) : Ticked next := by
  cases move with
  | touch => exact ticked.set rfl rfl rfl
  | register _ _ stamped => exact ticked.set rfl rfl stamped
  | drop => exact ticked.subset rfl (fun _ mem => (Dict.mem_items_erase.mp mem).1)
  | clear => exact ticked.subset rfl (nil_subset _)

theorem Ticked.new (enabled : Bool) : Ticked (.new enabled) where
  past _ mem := absurd mem not_mem_nil
  distinct _ mem := absurd mem not_mem_nil

theorem evictLoop_items {victims : List (Int × CacheEntry)}
    (ran : evictLoop alloc cache victims = .ok (after, next)) :
    next.entries.items = cache.entries.items.filter fun item => item.1 ∉ victims.map Prod.fst := by
  induction victims generalizing alloc cache with
  | nil =>
    cases ran
    simp
  | cons _ _ ih =>
    unfold evictLoop at ran
    split at ran
    case h_1 => cases ran
    case h_2 =>
      rw [ih ran]
      show (cache.entries.items.filter _).filter _ = _
      rw [filter_filter]
      apply filter_congr
      intro item _
      rw [Bool.eq_iff_iff]
      simp only [Bool.and_eq_true, decide_eq_true_eq, map_cons, mem_cons, not_or]
      exact and_comm

theorem evictable_sorted (alloc : BlockAllocator) (cache : PrefixCache) :
    (evictable alloc cache).Pairwise fun first second => first.2.lastUsed ≤ second.2.lastUsed := by
  have total : Std.Total evictsBefore := ⟨by
    intro first second
    unfold evictsBefore
    omega⟩
  have trans : IsTrans _ evictsBefore := ⟨by
    intro first second third
    unfold evictsBefore
    omega⟩
  refine (pairwise_insertionSort evictsBefore _).imp ?_
  intro first second before
  unfold evictsBefore at before
  omega

/-! ## What `ensure_free` does -/

/-- The entries whose block no sequence refers to. -/
def spareEntries (session : CacheSession V) : List (Int × CacheEntry) :=
  session.prefixCache.entries.items.filter fun item =>
    ∀ sequence ∈ session.sequences, item.2.blockId ∉ sequence.blockTable

theorem spareEntries_eq (sess : CacheSession V) :
    spareEntries sess =
      sess.prefixCache.entries.items.filter fun item => item.2.blockId ∉ CacheSession.held sess := by
  apply filter_congr
  intro item _
  rw [Bool.eq_iff_iff]
  simp only [decide_eq_true_eq, CacheSession.held, mem_heldBy, not_exists, not_and]

/-- `victims` are what a call for `numBlocks` has evicted, `enough` is its answer. -/
structure EnsuresFree (session : CacheSession V) (numBlocks : Nat) (victims : List (Int × CacheEntry)) (enough : Bool)
    (after : BlockAllocator) (next : PrefixCache) : Prop where
  answer : enough = true ↔ numBlocks ≤ session.pool.allocator.numFree + (spareEntries session).length
  gone : next.entries.items = session.prefixCache.entries.items.filter (· ∉ victims)
  nodup : victims.Nodup
  unpinned : victims ⊆ spareEntries session
  coldest : ∀ victim ∈ victims, ∀ item ∈ spareEntries session, item ∉ victims → victim.2.lastUsed < item.2.lastUsed
  exactly : enough = true → victims.length = numBlocks - session.pool.allocator.numFree ∧ numBlocks ≤ after.numFree
  all : enough = false → ∀ item ∈ spareEntries session, item ∈ victims
  referenced : ∀ sequence ∈ session.sequences, ∀ block ∈ sequence.blockTable,
    after.refs block = session.pool.allocator.refs block ∧ block ∉ after.free
  inverse : Inverse next

/-- The entries an eviction of `count` blocks takes. -/
def victimsOf (session : CacheSession V) (count : Nat) : List (Int × CacheEntry) :=
  (evictable session.pool.allocator session.prefixCache).take count

section

variable (audited : Audited size sess)
include audited

theorem Audited.evictable_perm :
    (evictable sess.pool.allocator sess.prefixCache).Perm (spareEntries sess) := by
  rw [spareEntries_eq]
  exact Verified.evictable_perm audited.balanced audited.inverse

theorem Audited.victims (count : Nat) :
    (victimsOf sess count).Nodup ∧ victimsOf sess count ⊆ spareEntries sess ∧
      (victimsOf sess count).length = min count (spareEntries sess).length := by
  have perm := audited.evictable_perm
  have itemsNodup : sess.prefixCache.entries.items.Nodup := sess.prefixCache.entries.nodupKeys.of_map
  refine ⟨?_, ?_, ?_⟩
  · exact (perm.nodup_iff.mpr (itemsNodup.sublist filter_sublist)).sublist (take_sublist _ _)
  · exact fun item mem => perm.subset (mem_of_mem_take mem)
  · rw [victimsOf, length_take, perm.length_eq]

theorem Audited.coldest (ticked : Ticked sess.prefixCache) {count : Nat}
    {victim item : Int × CacheEntry} (goes : victim ∈ victimsOf sess count) (spare : item ∈ spareEntries sess)
    (stays : item ∉ victimsOf sess count) : victim.2.lastUsed < item.2.lastUsed := by
  have perm := audited.evictable_perm
  have sorted := evictable_sorted sess.pool.allocator sess.prefixCache
  rw [← take_append_drop count (evictable _ _), pairwise_append] at sorted
  have behind : item ∈ (evictable sess.pool.allocator sess.prefixCache).drop count := by
    have mem := perm.symm.subset spare
    rw [← take_append_drop count (evictable _ _), mem_append] at mem
    exact mem.resolve_left stays
  have noLater := sorted.2.2 victim goes item behind
  have differ : victim.2.lastUsed ≠ item.2.lastUsed := by
    intro same
    have cached : ∀ other ∈ spareEntries sess, other ∈ sess.prefixCache.entries.items :=
      fun other mem => mem_of_mem_filter mem
    have victimSpare := (audited.victims count).2.1 goes
    exact stays (ticked.distinct victim (cached victim victimSpare) item (cached item spare) same ▸ goes)
  omega

theorem Audited.evict_items {count : Nat}
    (ran : evict sess.pool.allocator sess.prefixCache count = .ok (freed, after, next)) :
    next.entries.items = sess.prefixCache.entries.items.filter (· ∉ victimsOf sess count) := by
  rw [evictLoop_items (evict_inv ran)]
  apply filter_congr
  intro item mem
  rw [decide_eq_decide, not_iff_not, mem_map]
  constructor
  · rintro ⟨_, goes, sameKey⟩
    have victimIn := mem_of_mem_filter ((audited.victims count).2.1 goes)
    rw [← inj_on_of_nodup_map sess.prefixCache.entries.nodupKeys victimIn mem sameKey]
    exact goes
  · exact fun goes => ⟨item, goes, rfl⟩

end

theorem refs_of_held {rest : Multiset Nat} {block : Nat} {victims : List (Int × CacheEntry)}
    (bal : Balanced alloc (↑(cachedBlocks cache) + rest))
    (evicted : Evicted alloc cache rest freed after next)
    (items : next.entries.items = cache.entries.items.filter (· ∉ victims))
    (unpinned : ∀ victim ∈ victims, victim.2.blockId ∉ rest) (held : block ∈ rest) :
    after.refs block = alloc.refs block ∧ block ∉ after.free := by
  constructor
  · rw [evicted.balanced.refs, bal.refs, Multiset.count_add, Multiset.count_add]
    congr 1
    simp only [Multiset.coe_count, cachedBlocks, Dict.values, items, count_eq_countP, countP_map,
      countP_filter]
    apply countP_congr
    intro item _
    simp only [Function.comp_apply, beq_iff_eq, Bool.and_eq_true, decide_eq_true_eq, and_iff_left_iff_imp]
    exact fun same goes => unpinned item goes (same ▸ held)
  · intro free
    exact ((evicted.balanced.free block).mp free).2 (Multiset.mem_add.mpr (.inr held))

/-- The test of the loop in `ensure_free`; the flag says that `evict` has returned 0 and the call
returns `False`. -/
def lacksBlocks (numBlocks : Nat) (state : Bool × BlockAllocator × PrefixCache) : Bool :=
  !state.1 && decide (state.2.1.numFree < numBlocks)

/-- The body of the loop. -/
def evictMissing (numBlocks : Nat) (state : Bool × BlockAllocator × PrefixCache) :
    Except AllocatorError (Bool × BlockAllocator × PrefixCache) :=
  match evict state.2.1 state.2.2 (numBlocks - state.2.1.numFree) with
  | .error raised => .error raised
  | .ok (freed, allocator, cache) => .ok (decide (freed = 0), allocator, cache)

theorem ensure_free_ends {rest : Multiset Nat} {numBlocks : Nat}
    (ran : evict alloc cache (numBlocks - alloc.numFree) = .ok (freed, after, next))
    (evicted : Evicted alloc cache rest freed after next)
    (count : freed = min (numBlocks - alloc.numFree) (spare rest cache)) :
    ∃ rounds, loop (lacksBlocks numBlocks) (evictMissing numBlocks) rounds (false, alloc, cache) =
      .ok (some (decide (alloc.numFree + spare rest cache < numBlocks), after, next)) := by
  have fewer := evicted.spare
  have counted := evicted.numFree
  by_cases short : alloc.numFree < numBlocks
  · have busy : lacksBlocks numBlocks (false, alloc, cache) = true := by simp [lacksBlocks, short]
    have first : evictMissing numBlocks (false, alloc, cache) = .ok (decide (freed = 0), after, next) := by
      simp only [evictMissing, ran]
    by_cases still : after.numFree < numBlocks
    · have lacking : alloc.numFree + spare rest cache < numBlocks := by omega
      rw [decide_eq_true lacking]
      by_cases nothing : freed = 0
      · rw [decide_eq_true nothing] at first
        exact ⟨1, by rw [loop_round busy first, loop_done (by simp [lacksBlocks])]⟩
      · rw [decide_eq_false nothing] at first
        have busyAgain : lacksBlocks numBlocks (false, after, next) = true := by simp [lacksBlocks, still]
        have second : evictMissing numBlocks (false, after, next) = .ok (true, after, next) := by
          simp only [evictMissing, evict_of_spare_eq_zero _ evicted.balanced evicted.inverse (by omega), decide_true]
        exact ⟨2, by rw [loop_round busy first, loop_round busyAgain second, loop_done (by simp [lacksBlocks])]⟩
    · rw [decide_eq_false (by omega)] at first
      rw [decide_eq_false (by omega)]
      exact ⟨1, by rw [loop_round busy first, loop_done (by simp [lacksBlocks, still])]⟩
  · rw [evict_of_enough short] at ran
    cases ran
    rw [decide_eq_false (by omega)]
    exact ⟨0, loop_done (by simp [lacksBlocks, short]) 0⟩

theorem Audited.ensuresFree (audited : Audited size sess) (ticked : Ticked sess.prefixCache)
    (numBlocks : Nat) :
    ∃ enough after next,
      (∃ rounds, loop (lacksBlocks numBlocks) (evictMissing numBlocks) rounds
        (false, sess.pool.allocator, sess.prefixCache) = .ok (some (!enough, after, next))) ∧
      ensureFree sess.pool sess.prefixCache numBlocks =
        .ok (enough, { sess.pool with allocator := after }, next) ∧
      EnsuresFree sess numBlocks (victimsOf sess (numBlocks - sess.pool.allocator.numFree)) enough after next := by
  obtain ⟨after, next, ran, evicted, looped⟩ := ensureFreeLoop_spec numBlocks audited.balanced audited.inverse
  have ended := looped _ (Nat.lt_succ_of_le (spare_le_size _ sess.prefixCache))
  have spareEq : spare (CacheSession.held sess) sess.prefixCache = (spareEntries sess).length := by
    rw [spareEntries_eq]
    rfl
  obtain ⟨nodup, unpinned, _⟩ := audited.victims (numBlocks - sess.pool.allocator.numFree)
  have items := audited.evict_items ran
  have counted := evicted.numFree
  have halts := ensure_free_ends ran evicted rfl
  rw [spareEq] at ended counted halts
  refine ⟨decide (numBlocks ≤ sess.pool.allocator.numFree + (spareEntries sess).length), after, next, ?_,
    by simp only [ensureFree, ended], ?_⟩
  · rw [← decide_not]
    simpa only [not_le] using halts
  · refine ⟨decide_eq_true_iff, items, nodup, unpinned, ?_, ?_, ?_, ?_, evicted.inverse⟩
    · exact fun victim goes item spare stays => audited.coldest ticked goes spare stays
    · grind
    · intro short item spare
      have lacks := decide_eq_false_iff_not.mp short
      -- As many victims as there are entries to take, and none twice: all of them.
      have all := nodup.subperm unpinned
      exact (all.perm_of_length_le (by omega)).symm.subset spare
    · intro sequence mem block referred
      refine refs_of_held audited.balanced evicted items ?_ (mem_heldBy.mpr ⟨sequence, mem, referred⟩)
      intro victim goes
      have spare := unpinned goes
      rw [spareEntries_eq, mem_filter, decide_eq_true_eq] at spare
      exact spare.2

/-- After any calls on the cache, its pool and the sequences, the loop of `ensure_free` ends
whatever it is asked for, and has evicted exactly what the answer says. -/
theorem ensure_free_exact (blockHash : Int → List Nat → Int) (numBlocks blockSize numHiddenLayers : Nat) (zero : V)
    (enabled : Bool) (calls : List (CacheCall V)) :
    ∃ session, run (CacheSession.step blockHash) (.new numBlocks blockSize numHiddenLayers zero enabled) calls =
        .ok session ∧
      Inverse session.prefixCache ∧
      ∀ n, ∃ victims enough after next,
        (∃ rounds, loop (lacksBlocks n) (evictMissing n) rounds (false, session.pool.allocator, session.prefixCache) =
          .ok (some (!enough, after, next))) ∧
        ensureFree session.pool session.prefixCache n = .ok (enough, { session.pool with allocator := after }, next) ∧
        EnsuresFree session n victims enough after next := by
  obtain ⟨session, ran, audited, ticked⟩ := @calls_reach V (fun _ _ => True) Ticked enabled calls blockHash numBlocks
    blockSize numHiddenLayers zero (fun _ _ move => move.ticked) (.new enabled) (fun _ _ _ _ _ _ _ => trivial)
  refine ⟨session, ran, audited.inverse, ?_⟩
  intro n
  obtain ⟨enough, after, next, halts, returned, ensures⟩ := audited.ensuresFree ticked n
  exact ⟨_, enough, after, next, halts, returned, ensures⟩

end Nanoserve.Verified
