import Nanoserve.Verified.Eviction

/-! # Entries without a parent

`match` walks a chain from its root and stops at the first key that is not there.
-/

namespace Nanoserve.Verified

open Engine Lib PrefixCache Dict List

variable {V : Type}
variable {cache next : PrefixCache} {hash : Int} {alloc after : BlockAllocator} {hashes : List Int}
  {size : Nat}

/-- Every entry's `parent_hash` is the seed or a key. -/
def Rooted (cache : PrefixCache) : Prop :=
  ∀ item ∈ cache.entries.items, item.2.parentHash = ROOT_HASH ∨ item.2.parentHash ∈ cache.entries.keys

instance (cache : PrefixCache) : Decidable (Rooted cache) :=
  inferInstanceAs (Decidable (∀ item ∈ cache.entries.items, _))

def lineage (cache : PrefixCache) : List (Int × Int) :=
  cache.entries.items.map fun item => (item.1, item.2.parentHash)

theorem map_fst_lineage (cache : PrefixCache) : (lineage cache).map Prod.fst = cache.entries.keys := by
  simp only [lineage, map_map, Dict.keys]
  rfl

theorem rooted_iff_lineage :
    Rooted cache ↔ ∀ pair ∈ lineage cache, pair.2 = ROOT_HASH ∨ pair.2 ∈ (lineage cache).map Prod.fst := by
  rw [map_fst_lineage]
  simp only [Rooted, lineage, forall_mem_map]

theorem lineage_touch {entry : CacheEntry} (present : cache.entries.get? hash = some entry) :
    lineage (cache.touch hash entry) = lineage cache := by
  simp only [lineage, touch, items_set_of_present present, map_map]
  apply map_congr_left
  intro item mem
  simp only [Function.comp_apply]
  split
  case isTrue same =>
    have stored : (hash, item.2) ∈ cache.entries.items := by
      rw [← same]
      exact mem
    rw [eq_of_mem stored (get?_eq_some.mp present), same]
  case isFalse => rfl

theorem matchLoop_lineage {matched : List Nat} (ran : matchLoop alloc cache hashes = .ok (matched, after, next)) :
    lineage next = lineage cache := by
  induction hashes generalizing alloc cache matched with
  | nil =>
    cases ran
    rfl
  | cons _ _ ih =>
    unfold matchLoop at ran
    split at ran
    case h_1 =>
      cases ran
      rfl
    case h_2 _ present =>
      split at ran
      case h_1 => cases ran
      case h_2 =>
        split at ran
        case h_1 => cases ran
        case h_2 looped =>
          cases ran
          rw [ih looped, lineage_touch present]

/-- The keys that `insert` registers, with their parents, for a cache with these keys and tracked
blocks. -/
def newcomers (keys : List Int) (tracked : List Nat) (parent : Int) : List Int → List Nat → List (Int × Int)
  | hash :: hashes, block :: blockTable =>
    if hash ∈ keys ∨ block ∈ tracked then newcomers keys tracked hash hashes blockTable
    else (hash, parent) :: newcomers (keys ++ [hash]) (tracked ++ [block]) hash hashes blockTable
  | _, _ => []

theorem insertLoop_lineage {depth : Nat} {parent : Int} {table : List Nat}
    (ran : insertLoop alloc cache depth parent hashes table = .ok (after, next)) :
    lineage next = lineage cache ++ newcomers cache.entries.keys cache.byBlock.keys parent hashes table := by
  induction hashes generalizing alloc cache depth parent table with
  | nil =>
    cases ran
    simp [newcomers]
  | cons hash _ ih =>
    cases table with
    | nil =>
      cases ran
      simp [newcomers]
    | cons =>
      unfold insertLoop at ran
      unfold newcomers
      split at ran
      case h_1 existing present =>
        have known := Dict.mem_keys.mpr ⟨existing, present⟩
        have sameKeys : (cache.touch hash existing).entries.keys = cache.entries.keys := keys_set_of_present present
        rw [ih ran, lineage_touch present, sameKeys, if_pos (.inl known)]
        rfl
      case h_2 absent =>
        have unknown := get?_eq_none.mp absent
        split at ran
        case isTrue tracked =>
          rw [ih ran, if_pos (.inr (mem_keys_iff_isSome.mpr tracked))]
        case isFalse untracked =>
          have free := Option.not_isSome_iff_eq_none.mp untracked
          split at ran
          case h_1 => cases ran
          case h_2 =>
            rw [ih ran, if_neg (not_or.mpr ⟨unknown, get?_eq_none.mp free⟩),
              keys_set_of_absent absent, keys_set_of_absent free]
            simp [lineage, items_set_of_absent absent]

/-! ## Which calls leave every entry a parent -/

/-- Nothing is registered below a block that was passed over, because it is tracked under another key. -/
def WithoutGap (keys : List Int) (new : List (Int × Int)) : Prop :=
  ∀ pair ∈ new, pair.2 = ROOT_HASH ∨ pair.2 ∈ keys ∨ pair.2 ∈ new.map Prod.fst

/-- No entry is evicted whose child stays. -/
def ChildrenFirst (cache : PrefixCache) (victims : List (Int × CacheEntry)) : Prop :=
  ∀ item ∈ cache.entries.items, item ∉ victims →
    item.2.parentHash = ROOT_HASH ∨ item.2.parentHash ∉ victims.map Prod.fst

def LeavesParents (blockHash : Int → List Nat → Int) (session : CacheSession V) : CacheCall V → Prop
  | .pool _ => True
  | .matchPrefix _ => True
  | .insert sequence tokens =>
    match session.sequences[sequence]? with
    | none => True
    | some cache =>
      session.prefixCache.enabled = true →
        WithoutGap session.prefixCache.entries.keys
          (newcomers session.prefixCache.entries.keys session.prefixCache.byBlock.keys ROOT_HASH
            (hashChain blockHash session.pool.blockSize tokens) cache.blockTable)
  | .evict numBlocks => ChildrenFirst session.prefixCache (victimsOf session numBlocks)
  | .ensureFree numBlocks =>
    ChildrenFirst session.prefixCache (victimsOf session (numBlocks - session.pool.allocator.numFree))
  | .clear => True

instance (keys : List Int) (new : List (Int × Int)) : Decidable (WithoutGap keys new) :=
  inferInstanceAs (Decidable (∀ pair ∈ new, _))

instance (cache : PrefixCache) (victims : List (Int × CacheEntry)) : Decidable (ChildrenFirst cache victims) :=
  inferInstanceAs (Decidable (∀ item ∈ cache.entries.items, _))

instance (blockHash : Int → List Nat → Int) (session : CacheSession V) :
    (request : CacheCall V) → Decidable (LeavesParents blockHash session request)
  | .pool _ => .isTrue trivial
  | .matchPrefix _ => .isTrue trivial
  | .insert sequence tokens =>
    match placed : session.sequences[sequence]? with
    | none => .isTrue (by simp only [LeavesParents, placed])
    | some cache => decidable_of_iff (session.prefixCache.enabled = true →
        WithoutGap session.prefixCache.entries.keys
          (newcomers session.prefixCache.entries.keys session.prefixCache.byBlock.keys ROOT_HASH
            (hashChain blockHash session.pool.blockSize tokens) cache.blockTable)) (by simp only [LeavesParents, placed])
  | .evict _ => inferInstanceAs (Decidable (ChildrenFirst _ _))
  | .ensureFree _ => inferInstanceAs (Decidable (ChildrenFirst _ _))
  | .clear => .isTrue trivial

theorem rooted_append_iff {new : List (Int × Int)} (rooted : Rooted cache)
    (lineageEq : lineage next = lineage cache ++ new) : Rooted next ↔ WithoutGap cache.entries.keys new := by
  rw [rooted_iff_lineage, lineageEq, map_append, map_fst_lineage]
  simp only [WithoutGap, mem_append]
  constructor
  · exact fun all pair mem => all pair (.inr mem)
  · intro gapless pair mem
    cases mem with
    | inl old =>
      have before := rooted_iff_lineage.mp rooted pair old
      rw [map_fst_lineage] at before
      exact before.imp_right .inl
    | inr young => exact gapless pair young

theorem rooted_filter_iff {victims : List (Int × CacheEntry)} (rooted : Rooted cache)
    (cached : victims ⊆ cache.entries.items) (items : next.entries.items = cache.entries.items.filter (· ∉ victims)) :
    Rooted next ↔ ChildrenFirst cache victims := by
  have kept : ∀ item, item ∈ next.entries.items ↔ item ∈ cache.entries.items ∧ item ∉ victims := by
    intro item
    rw [items, mem_filter, decide_eq_true_eq]
  -- A key is left exactly if it was there and is no victim's.
  have keys : ∀ key, key ∈ next.entries.keys ↔ key ∈ cache.entries.keys ∧ key ∉ victims.map Prod.fst := by
    intro key
    simp only [Dict.keys, mem_map]
    constructor
    · rintro ⟨item, mem, rfl⟩
      obtain ⟨inCache, stays⟩ := (kept item).mp mem
      refine ⟨⟨item, inCache, rfl⟩, ?_⟩
      rintro ⟨_, goes, sameKey⟩
      exact stays (inj_on_of_nodup_map cache.entries.nodupKeys (cached goes) inCache sameKey ▸ goes)
    · rintro ⟨⟨item, inCache, rfl⟩, spared⟩
      exact ⟨item, (kept item).mpr ⟨inCache, fun goes => spared ⟨item, goes, rfl⟩⟩, rfl⟩
  constructor
  · intro all item mem stays
    exact (all item ((kept item).mpr ⟨mem, stays⟩)).imp_right fun parent => ((keys _).mp parent).2
  · intro childrenFirst item mem
    obtain ⟨inCache, stays⟩ := (kept item).mp mem
    cases rooted item inCache with
    | inl root => exact .inl root
    | inr parent => exact (childrenFirst item inCache stays).imp_right fun spared => (keys _).mpr ⟨parent, spared⟩

theorem rooted_step_iff {blockHash : Int → List Nat → Int} {sess next : CacheSession V} {req : CacheCall V}
    (audited : Audited size sess) (rooted : Rooted sess.prefixCache)
    (went : CacheStep blockHash sess req next) :
    Rooted next.prefixCache ↔ LeavesParents blockHash sess req := by
  cases went with
  | pool => exact iff_of_true rooted trivial
  | matched ran =>
    refine iff_of_true ?_ trivial
    cases matchPrefix_inv ran with
    | inl looped =>
      obtain ⟨alloc, looped⟩ := looped
      rw [rooted_iff_lineage, matchLoop_lineage looped]
      exact rooted_iff_lineage.mp rooted
    | inr unchanged =>
      rw [unchanged]
      exact rooted
  | ignored unknown => simp [LeavesParents, unknown, rooted]
  | inserted placed ran =>
    simp only [LeavesParents, placed]
    cases insert_inv ran with
    | inl registered =>
      obtain ⟨enabled, alloc, looped⟩ := registered
      rw [rooted_append_iff rooted (insertLoop_lineage looped)]
      simp [enabled]
    | inr unchanged =>
      rw [unchanged.2]
      exact iff_of_true rooted fun enabled => absurd enabled (by simp [unchanged.1])
  | evicted asked ran =>
    have cached : ∀ count, victimsOf sess count ⊆ sess.prefixCache.entries.items :=
      fun count item goes => mem_of_mem_filter ((audited.victims count).2.1 goes)
    rw [rooted_filter_iff rooted (cached _) (audited.evict_items ran)]
    cases asked with
    | inl evict => rw [evict]; rfl
    | inr ensured =>
      obtain ⟨_, same, count⟩ := ensured
      rw [same, count]
      rfl
  | cleared =>
    refine iff_of_true ?_ trivial
    intro item mem
    cases mem

/-! ## Finding an entry -/

/-- `match` on tokens that have a cached key in their chain gives the block of that key, at its place. -/
def Findable (blockHash : Int → List Nat → Int) (Occurs : List Nat → Prop) (session : CacheSession V) : Prop :=
  ∀ (tokens : List Nat) (index : Nat) (hash : Int) (entry : CacheEntry), Occurs tokens →
    (hashChain blockHash session.pool.blockSize tokens)[index]? = some hash →
    session.prefixCache.entries.get? hash = some entry →
    Yields (matchPrefix blockHash session.pool session.prefixCache tokens) fun found => found.1[index]? = some entry.blockId

def HashedOnto (blockHash : Int → List Nat → Int) (blockSize : Nat) (Occurs : List Nat → Prop) (parent hash : Int) : Prop :=
  ∃ tokens, Occurs tokens ∧ ∃ link ∈ links blockHash blockSize tokens, link.1 = parent ∧ blockHash link.1 link.2 = hash

structure Keyed (Links : Int → Int → Prop) (cache : PrefixCache) : Prop where
  linked : ∀ item ∈ cache.entries.items, Links item.2.parentHash item.1
  enabled : ∀ item ∈ cache.entries.items, cache.enabled = true

theorem CacheMove.keyed {Links : Int → Int → Prop} (move : CacheMove Links cache next) (keyed : Keyed Links cache) :
    Keyed Links next := by
  cases move with
  | touch present =>
    have stored := get?_eq_some.mp present
    have chained := keyed.linked _ stored
    constructor
    · intro item mem
      cases mem_items_set.mp mem with
      | inl same =>
        rw [same]
        exact chained
      | inr old => exact keyed.linked item old.1
    · exact fun _ _ => keyed.enabled _ stored
  | register enabled _ _ linked =>
    constructor
    · intro item mem
      cases mem_items_set.mp mem with
      | inl same =>
        rw [same]
        exact linked
      | inr old => exact keyed.linked item old.1
    · exact fun _ _ => enabled
  | drop =>
    constructor
    · exact fun item mem => keyed.linked item (mem_items_erase.mp mem).1
    · exact fun item mem => keyed.enabled item (mem_items_erase.mp mem).1
  | clear => exact ⟨fun _ mem => absurd mem not_mem_nil, fun _ mem => absurd mem not_mem_nil⟩

theorem matchLoop_finds {matched : List Nat} {index : Nat} (placed : hashes[index]? = some hash)
    (known : ∀ earlier ≤ index, ∀ key, hashes[earlier]? = some key → key ∈ cache.entries.keys)
    (ran : matchLoop alloc cache hashes = .ok (matched, after, next)) : matched[index]? = blockOf cache hash := by
  induction hashes generalizing alloc cache index matched with
  | nil => simp at placed
  | cons first hashes ih =>
    obtain ⟨entry, present⟩ := Dict.mem_keys.mp (known 0 (Nat.zero_le _) first rfl)
    simp only [matchLoop, present] at ran
    split at ran
    case h_1 => cases ran
    case h_2 =>
      split at ran
      case h_1 => cases ran
      case h_2 _ _ _ looped =>
        cases ran
        cases index with
        | zero =>
          cases placed
          simp [blockOf, present]
        | succ index =>
          have later : ∀ earlier ≤ index, ∀ key, hashes[earlier]? = some key →
              key ∈ (cache.touch first entry).entries.keys := by
            intro earlier before key here
            have sameKeys : (cache.touch first entry).entries.keys = cache.entries.keys :=
              keys_set_of_present present
            rw [sameKeys]
            exact known (earlier + 1) (Nat.succ_le_succ before) key here
          rw [getElem?_cons_succ, ih placed later looped, blockOf_touch present]

section Finding

variable {blockHash : Int → List Nat → Int} {Occurs : List Nat → Prop}

theorem Rooted.ancestors (rooted : Rooted cache) (keyed : Keyed (HashedOnto blockHash size Occurs) cache)
    (collisionFree : CollisionFree blockHash size Occurs) {tokens : List Nat} (occurs : Occurs tokens)
    {index : Nat} (placed : (hashChain blockHash size tokens)[index]? = some hash)
    (known : hash ∈ cache.entries.keys) :
    ∀ earlier ≤ index, ∀ key, (hashChain blockHash size tokens)[earlier]? = some key → key ∈ cache.entries.keys := by
  induction index generalizing hash with
  | zero =>
    intro earlier before key here
    rw [Nat.le_zero.mp before, placed] at here
    cases here
    exact known
  | succ index ih =>
    obtain ⟨item, mem, rfl⟩ := mem_map.mp known
    obtain ⟨source, sourceOccurs, link, hashed, parentEq, keyEq⟩ := keyed.linked item mem
    obtain ⟨own, ownPlaced, ownKey⟩ := getElem?_hashChain placed
    have same := collisionFree.injective source tokens sourceOccurs occurs link hashed own
      (mem_of_getElem? ownPlaced) (keyEq.trans ownKey.symm)
    have parentPlaced : (hashChain blockHash size tokens)[index]? = some item.2.parentHash := by
      have before := linksFrom_parent ownPlaced
      rw [getElem?_cons_succ, ← same, parentEq] at before
      exact before
    have parentKnown : item.2.parentHash ∈ cache.entries.keys := by
      refine (rooted item mem).resolve_left ?_
      intro root
      obtain ⟨grand, grandPlaced, grandKey⟩ := getElem?_hashChain parentPlaced
      exact collisionFree.rootless tokens occurs grand (mem_of_getElem? grandPlaced) (grandKey.trans root)
    intro earlier before key here
    cases Nat.lt_or_eq_of_le before with
    | inl below => exact ih parentPlaced parentKnown earlier (Nat.le_of_lt_succ below) key here
    | inr last =>
      rw [last, placed] at here
      cases here
      exact known

theorem Rooted.findable {sess : CacheSession V} (rooted : Rooted sess.prefixCache)
    (audited : Audited size sess) (keyed : Keyed (HashedOnto blockHash size Occurs) sess.prefixCache)
    (collisionFree : CollisionFree blockHash size Occurs) : Findable blockHash Occurs sess := by
  intro tokens index hash entry occurs placed present
  have known := Dict.mem_keys.mpr ⟨entry, present⟩
  have on := keyed.enabled _ (get?_eq_some.mp present)
  obtain ⟨matched, after, next, looped, -⟩ :=
    matchLoop_spec (hashChain blockHash sess.pool.blockSize tokens) audited.balanced
  refine ⟨(matched, { sess.pool with allocator := after }, next), ?_, ?_⟩
  · simp only [matchPrefix, if_pos on, looped]
  · have sizeEq := audited.blockSize
    rw [sizeEq] at placed looped
    have found := matchLoop_finds placed (rooted.ancestors keyed collisionFree occurs placed known) looped
    simp only [found, blockOf, present, Option.map_some]

end Finding

/-- No call raises. Every entry has a parent in every state of a run exactly if no call of the run
takes one away or registers an entry without one; and where the hashes of the tokens that occur do
not collide, every entry is found then, too. -/
theorem cached_reachable_iff (blockHash : Int → List Nat → Int) (numBlocks blockSize numHiddenLayers : Nat) (zero : V)
    (enabled : Bool) (calls : List (CacheCall V)) :
    (∃ session, run (CacheSession.step blockHash) (.new numBlocks blockSize numHiddenLayers zero enabled) calls =
      .ok session) ∧
    (Throughout (CacheSession.step blockHash) (fun session => Rooted session.prefixCache)
        (.new numBlocks blockSize numHiddenLayers zero enabled) calls ↔
      Along (CacheSession.step blockHash) (LeavesParents blockHash)
        (.new numBlocks blockSize numHiddenLayers zero enabled) calls) ∧
    ∀ Occurs, CollisionFree blockHash blockSize Occurs →
      (∀ sequence tokens, .insert sequence tokens ∈ calls → Occurs tokens) →
      (Throughout (CacheSession.step blockHash)
          (fun session => Rooted session.prefixCache ∧ Findable blockHash Occurs session)
          (.new numBlocks blockSize numHiddenLayers zero enabled) calls ↔
        Along (CacheSession.step blockHash) (LeavesParents blockHash)
          (.new numBlocks blockSize numHiddenLayers zero enabled) calls) := by
  have parents : Throughout (CacheSession.step blockHash) (fun session => Rooted session.prefixCache)
        (.new numBlocks blockSize numHiddenLayers zero enabled) calls ↔
      Along (CacheSession.step blockHash) (LeavesParents blockHash)
        (.new numBlocks blockSize numHiddenLayers zero enabled) calls := by
    refine @along_iff_throughout _ _ _ _ (Audited blockSize) _ _ ?_ ?_ ?_ _ _
      (.new numBlocks blockSize numHiddenLayers zero enabled) (fun _ member => absurd member List.not_mem_nil)
    · intro session request next audited ran
      obtain ⟨reached, reachedEq, stepped⟩ := audited.step blockHash request
      obtain rfl := Except.ok.inj (reachedEq.symm.trans ran)
      exact stepped.audited audited
    · intro session request next audited rooted ran
      obtain ⟨reached, reachedEq, stepped⟩ := audited.step blockHash request
      obtain rfl := Except.ok.inj (reachedEq.symm.trans ran)
      exact rooted_step_iff audited rooted stepped
    · intro session request error audited raised
      obtain ⟨reached, reachedEq, -⟩ := audited.step blockHash request
      cases reachedEq.symm.trans raised
  obtain ⟨session, ran, -⟩ := @calls_reach V (fun _ _ => True) (fun _ => True) enabled calls blockHash numBlocks blockSize
    numHiddenLayers zero (fun _ _ _ _ => trivial) trivial (fun _ _ _ _ _ _ _ => trivial)
  refine ⟨⟨session, ran⟩, parents, ?_⟩
  intro Occurs collisionFree occurs
  rw [← parents]
  constructor
  · exact fun throughout past last begins here => (throughout past last begins here).1
  · intro throughout past last begins here
    have rooted := throughout past last begins here
    obtain ⟨same, sameRan, audited, keyed⟩ := @calls_reach V (HashedOnto blockHash blockSize Occurs) (Keyed _) enabled past
      blockHash numBlocks blockSize numHiddenLayers zero (fun _ _ move => move.keyed)
      ⟨fun _ member => absurd member List.not_mem_nil, fun _ member => absurd member List.not_mem_nil⟩ (by
        intro request member sequence tokens inserts link hashed
        exact ⟨tokens, occurs sequence tokens (begins.subset (inserts ▸ member)), link, hashed, rfl, rfl⟩)
    obtain rfl := Except.ok.inj (sameRan.symm.trans here)
    exact ⟨rooted, rooted.findable audited keyed collisionFree⟩

def foldHash (parent : Int) (tokens : List Nat) : Int := tokens.foldl (fun hash token => 31 * hash + token + 1) parent

/-- A sequence of two tokens, one block each. -/
def twoBlocks : List (CacheCall Nat) :=
  [.pool (.call .allocate), .pool (.call (.update 0 ⟨2, fun _ => [1, 2], fun _ => rfl⟩))]

/-- Its prompt is cached, it ends, and both blocks are asked back for at once. -/
def bothEvicted : List (CacheCall Nat) :=
  twoBlocks ++ [.insert 0 [1, 2], .pool (.call (.free 0)), .matchPrefix [1, 2], .pool (.call (.free 1)), .ensureFree 2]

theorem collisionFree_foldHash : CollisionFree foldHash 1 (· ∈ [[1, 2]]) := by decide

theorem cached_reachable_iff_both :
    CollisionFree foldHash 1 (· ∈ [[1, 2]]) ∧
      Along (CacheSession.step foldHash) (LeavesParents foldHash) (.new 2 1 1 0 true) bothEvicted ∧
      Throughout (CacheSession.step foldHash)
        (fun session => Rooted session.prefixCache ∧ Findable foldHash (· ∈ [[1, 2]]) session) (.new 2 1 1 0 true)
        bothEvicted := by
  have along : Along (CacheSession.step foldHash) (LeavesParents foldHash) (.new 2 1 1 0 true) bothEvicted := by
    decide +kernel
  have occurs : ∀ sequence tokens, CacheCall.insert sequence tokens ∈ bothEvicted → tokens ∈ [[1, 2]] := by
    intro sequence tokens member
    simp only [bothEvicted, twoBlocks, List.cons_append, List.nil_append, List.mem_cons, reduceCtorEq, false_or,
      CacheCall.insert.injEq, List.not_mem_nil, or_false] at member
    simp [member.2]
  exact ⟨collisionFree_foldHash, along,
    ((cached_reachable_iff foldHash 2 1 1 0 true bothEvicted).2.2 _ collisionFree_foldHash occurs).mpr along⟩

/-- One block asked back for: the parent goes, and the child is left behind where `match` does not
find it. -/
theorem orphaned_by_eviction :
    Yields (run (CacheSession.step foldHash) (.new 2 1 1 0 true)
        (twoBlocks ++ [.insert 0 [1, 2], .pool (.call (.free 0)), .evict 1])) (fun session =>
      ¬Rooted session.prefixCache ∧ session.prefixCache.entries.values.map CacheEntry.blockId = [1] ∧
        Yields (matchPrefix foldHash session.pool session.prefixCache [1, 2]) fun found => found.1 = []) ∧
    Yields (run (CacheSession.step foldHash) (.new 2 1 1 0 true)
        (twoBlocks ++ [.insert 0 [1], .insert 0 [7, 8]])) (fun session =>
      ¬Rooted session.prefixCache ∧ session.prefixCache.entries.values.map CacheEntry.blockId = [0, 1] ∧
        Yields (matchPrefix foldHash session.pool session.prefixCache [7, 8]) fun found => found.1 = []) := by
  decide +kernel

end Nanoserve.Verified
