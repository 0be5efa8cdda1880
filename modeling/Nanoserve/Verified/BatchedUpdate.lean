import Nanoserve.Engine.BatchSession
import Nanoserve.Verified.EngineMemory
import Nanoserve.Verified.Isolation

/-! # A batch as good as its sequences one by one

Any client of the pool may allocate, update, fork and free sequences, seed new ones with blocks in
use and decode some of them in a batch.
-/

namespace Nanoserve.Verified

open Engine Lib List BatchedPagedCache
open PagedKVCache (Paged blockTable unshareTail appendBlocks ensureCapacity)

variable {V : Type}
variable {pool : PagedCachePool V} {sequences : List PagedKVCache}
variable {α : Type} {cache : PagedKVCache} {rest : Multiset Nat} {before after : PagedCachePool V}
  {seqs grown : List Sequence} {owners : List Nat}

/-! ## Any sequence -/

structure Durable (Good : Paged V → Prop) : Prop where
  unshared : ∀ pool cache, Good (pool, cache) → Ends (unshareTail pool cache) Good Good
  appended : ∀ pool cache count, Good (pool, cache) → Ends (appendBlocks pool cache count) Good Good
  written : ∀ pool cache kv numTokens start, Good (pool, cache) →
    Good ({ pool with kv }, { cache with numTokens, start })

theorem Ends.of_error {σ β : Type} {raised : Raised σ} {Returns : α → Prop} {Returns' : β → Prop} {Raises : σ → Prop}
    (ends : Ends (.error raised : Except _ α) Returns Raises) :
    Ends (.error raised : Except _ β) Returns' Raises := by
  cases raised with
  | outOfBlocks => exact ends
  | runtimeError => exact ends

namespace Durable

variable {Good : Paged V → Prop}

theorem grow (durable : Durable Good) (good : Good (pool, cache)) (n : Nat) :
    Ends (PagedKVCache.grow pool cache n) Good Good := by
  have started : Ends
      (if cache.numTokens % pool.blockSize ≠ 0 then unshareTail pool cache else .ok (pool, cache))
      Good Good := by
    split
    case isTrue => exact durable.unshared pool cache good
    case isFalse => exact good
  unfold PagedKVCache.grow
  dsimp only
  split
  case h_1 raised stopped => grind
  case h_2 middle between went =>
    rw [went] at started
    have taken := durable.appended middle between
      (ceilDiv (between.numTokens + n) middle.blockSize - between.blockTable.length) started
    unfold ensureCapacity
    split
    case h_1 raised stopped => grind
    case h_2 last table grown =>
      rw [grown] at taken
      exact durable.written last table last.kv _ table.start taken

theorem update (durable : Durable Good) {state : Paged V} (good : Good state) (layer : Nat) (row : List V) :
    Ends (PagedKVCache.update layer row state) (fun updated => Good updated.2) Good := by
  have advanced : Ends (if layer = 0 then
      PagedKVCache.grow state.1 { state.2 with start := state.2.numTokens } row.length else .ok state) Good Good := by
    split
    case isTrue => exact durable.grow (durable.written state.1 state.2 state.1.kv state.2.numTokens _ good) _
    case isFalse => exact good
  unfold PagedKVCache.update
  dsimp only
  split
  case h_1 _ stopped =>
    rw [stopped] at advanced
    exact advanced.of_error
  case h_2 pool cache went =>
    rw [went] at advanced
    exact durable.written pool cache _ cache.numTokens cache.start advanced

theorem pass (durable : Durable Good) {state : Paged V} (good : Good state) (chunk : Chunk V) (count : Nat) :
    Ends (PagedKVCache.pass chunk state count) (fun passed => Good passed.2) Good := by
  induction count with
  | zero => exact good
  | succ count ih =>
    unfold PagedKVCache.pass
    split
    case h_1 raised stopped => grind
    case h_2 _ _ went =>
      rw [went] at ih
      have updated := durable.update ih count (chunk.rows count)
      split
      case h_1 raised stopped =>
        rw [stopped] at updated
        exact updated.of_error
      case h_2 _ _ wrote =>
        rw [wrote] at updated
        exact updated

end Durable

structure Shelf (Fits : PagedKVCache → Prop) (rest : Multiset Nat) (before after : Paged V) : Prop where
  balanced : Balanced after.1.allocator (↑after.2.blockTable + rest)
  fits : Fits after.2
  shape : SameShape before.1 after.1

section Fitting

variable {Fits : PagedKVCache → Prop} {size : Nat}

theorem Shelf.trans {first second third : Paged V} (left : Shelf Fits rest first second)
    (right : Shelf Fits rest second third) : Shelf Fits rest first third :=
  ⟨right.balanced, right.fits, left.shape.trans right.shape⟩

structure Suits (V : Type) (Fits : PagedKVCache → Prop) (size : Nat) : Prop where
  unshared : ∀ rest (pool : PagedCachePool V) cache, pool.blockSize = size →
    Balanced pool.allocator (↑cache.blockTable + rest) → Fits cache →
    Ends (unshareTail pool cache) (Shelf Fits rest (pool, cache)) (Shelf Fits rest (pool, cache))
  appended : ∀ rest (pool : PagedCachePool V) cache count, pool.blockSize = size →
    Balanced pool.allocator (↑cache.blockTable + rest) → Fits cache →
    Ends (appendBlocks pool cache count) (Shelf Fits rest (pool, cache)) (Shelf Fits rest (pool, cache))
  written : ∀ cache numTokens start, Fits cache → Fits { cache with numTokens, start }

theorem Suits.durable (suits : Suits V Fits size) {before : Paged V} (sized : before.1.blockSize = size) :
    Durable (Shelf Fits rest before) where
  unshared pool cache shelf :=
    (suits.unshared rest pool cache (shelf.shape.blockSize.trans sized) shelf.balanced shelf.fits).mono
      (fun _ later => shelf.trans later) (fun _ later => shelf.trans later)
  appended pool cache count shelf :=
    (suits.appended rest pool cache count (shelf.shape.blockSize.trans sized) shelf.balanced shelf.fits).mono
      (fun _ later => shelf.trans later) (fun _ later => shelf.trans later)
  written _ _ _ numTokens start shelf :=
    ⟨shelf.balanced, suits.written _ numTokens start shelf.fits, shelf.shape.trans ⟨rfl, rfl, rfl⟩⟩

structure BatchShelf (Fits : PagedKVCache → Prop) (rest : Multiset Nat) (before : PagedCachePool V)
    (seqs : List Sequence) (after : PagedCachePool V × List Sequence) : Prop where
  balanced : Balanced after.1.allocator (heldBy tableOf after.2 + rest)
  fits : ∀ seq ∈ after.2, Fits seq.cache
  shape : SameShape before after.1
  length : after.2.length = seqs.length

theorem BatchShelf.cons {middle : PagedCachePool V} {seq : Sequence} {after : PagedCachePool V × List Sequence}
    {others : Multiset Nat} (shelf : Shelf Fits others (before, seq.cache) (middle, cache))
    (shelves : BatchShelf Fits (↑cache.blockTable + rest) middle seqs after) :
    BatchShelf Fits rest before (seq :: seqs) (after.1, { seq with cache } :: after.2) where
  balanced := by
    rw [heldBy_cons, add_assoc, add_left_comm]
    exact shelves.balanced
  fits := forall_mem_cons.mpr ⟨shelf.fits, shelves.fits⟩
  shape := shelf.shape.trans shelves.shape
  length := by rw [length_cons, length_cons, shelves.length]

theorem commit_shelf (suits : Suits V Fits size) (sized : pool.blockSize = size)
    (bal : Balanced pool.allocator (heldBy tableOf seqs + rest)) (fits : ∀ seq ∈ seqs, Fits seq.cache) :
    Ends (commit pool seqs) (fun result => BatchShelf Fits rest pool seqs (result.1, result.2.1))
      (BatchShelf Fits rest pool seqs) := by
  induction seqs generalizing pool rest with
  | nil => exact ⟨bal, fits, .refl pool, rfl⟩
  | cons seq seqs ih =>
    obtain ⟨seqFits, fits⟩ := forall_mem_cons.mp fits
    rw [heldBy_cons, add_assoc] at bal
    have durable : Durable (Shelf Fits (heldBy tableOf seqs + rest) (pool, seq.cache)) := suits.durable sized
    have grown := durable.grow ⟨bal, seqFits, .refl pool⟩ 1
    unfold commit
    split
    case h_1 raised stopped =>
      rw [stopped] at grown
      exact grown
    case h_2 middle cache stopped =>
      rw [stopped] at grown
      have shelf : Shelf Fits _ (pool, seq.cache) (middle, cache) := grown
      have still : BatchShelf Fits (↑cache.blockTable + rest) middle seqs (middle, seqs) :=
        ⟨by rw [add_left_comm]; exact shelf.balanced, fits, .refl middle, rfl⟩
      exact still.cons shelf
    case h_3 middle cache grew =>
      rw [grew] at grown
      have shelf : Shelf Fits _ (pool, seq.cache) (middle, cache) := grown
      have continued := ih (shelf.shape.blockSize.trans sized) (by rw [add_left_comm]; exact shelf.balanced) fits
      split
      case h_1 raised stopped =>
        rw [stopped] at continued
        exact continued
      case h_2 after left stopped =>
        rw [stopped] at continued
        exact BatchShelf.cons shelf continued
      case h_3 after left _ committed =>
        rw [committed] at continued
        exact BatchShelf.cons shelf continued

end Fitting

section Owners

/-- Everybody outside `owners`. -/
def outside (owners : List Nat) (items : List α) : List α :=
  ((range items.length).filter (· ∉ owners)).filterMap (items[·]?)

theorem heldBy_outside {table : α → List Nat} {items chosen : List α} (nodup : owners.Nodup)
    (placed : owners.map (items[·]?) = chosen.map some) :
    heldBy table items = heldBy table chosen + heldBy table (outside owners items) := by
  have whole : (range items.length).filterMap (items[·]?) = items := by
    have each : (range items.length).map (items[·]?) = items.map some := by
      apply ext_getElem (by simp)
      intro index _ _
      simp
    have through := congrArg (filterMap id) each
    simpa [filterMap_map] using through
  have inItems : ∀ owner ∈ owners, owner < items.length := by
    intro owner mem
    have here := placed ▸ mem_map_of_mem mem
    obtain ⟨_, -, same⟩ := mem_map.mp here
    exact (List.getElem?_eq_some_iff.mp same.symm).1
  have split : (range items.length).Perm (owners ++ (range items.length).filter (· ∉ owners)) := by
    refine (perm_ext_iff_of_nodup nodup_range ?_).mpr ?_
    · refine nodup_append.mpr ⟨nodup, nodup_range.filter _, ?_⟩
      intro first firstIn second secondIn same
      have apart : second ∉ owners := by simpa using (mem_filter.mp secondIn).2
      exact apart (same ▸ firstIn)
    · intro index
      simp only [mem_append, mem_filter, mem_range, decide_not, Bool.not_eq_eq_eq_not, Bool.not_true,
        decide_eq_false_iff_not]
      refine ⟨fun below => ?_, fun mem => mem.elim (inItems index) And.left⟩
      by_cases mem : index ∈ owners
      · exact .inl mem
      · exact .inr ⟨below, mem⟩
  have front : owners.filterMap (items[·]?) = chosen := by
    have through := congrArg (filterMap id) placed
    simpa [filterMap_map] using through
  have perm := split.filterMap (items[·]?)
  rw [whole, filterMap_append, front] at perm
  rw [heldBy_perm perm, heldBy_append]
  rfl

end Owners

open PoolSession (writeBack)

theorem length_writeBack (owners : List Nat) (sequences : List PagedKVCache) (seqs : List Sequence) :
    (writeBack sequences owners seqs).length = sequences.length := by
  fun_induction writeBack sequences owners seqs with
  | case1 _ _ _ _ _ ih => rw [ih, length_set]
  | case2 => rfl

theorem getElem?_writeBack {index : Nat} (elsewhere : index ∉ owners) :
    (writeBack sequences owners seqs)[index]? = sequences[index]? := by
  fun_induction writeBack sequences owners seqs with
  | case1 => grind
  | case2 => rfl

theorem map_writeBack (nodup : owners.Nodup) (inList : ∀ owner ∈ owners, owner < sequences.length)
    (lengths : seqs.length = owners.length) :
    owners.map ((writeBack sequences owners seqs)[·]?) = seqs.map fun seq => some seq.cache := by
  induction owners generalizing sequences seqs with
  | nil => grind
  | cons owner _ ih =>
    cases seqs with
    | nil => cases lengths
    | cons =>
      obtain ⟨notAgain, nodup⟩ := nodup_cons.mp nodup
      have placed : owner < sequences.length := inList owner mem_cons_self
      simp only [writeBack, map_cons]
      rw [getElem?_writeBack notAgain, getElem?_set_self placed]
      rw [ih nodup (fun other mem => by
        rw [length_set]
        exact inList other (mem_cons_of_mem _ mem)) (Nat.succ.inj lengths)]

theorem outside_writeBack (owners : List Nat) (sequences : List PagedKVCache) (seqs : List Sequence) :
    outside owners (writeBack sequences owners seqs) = outside owners sequences := by
  unfold outside
  rw [length_writeBack]
  apply filterMap_congr
  intro index mem
  exact getElem?_writeBack (by grind)

theorem heldBy_tableOf (seqs : List Sequence) :
    heldBy tableOf seqs = heldBy blockTable (seqs.map Sequence.cache) := by
  simp only [heldBy, map_map]
  rfl

theorem heldBy_batch (nodup : owners.Nodup) (placed : owners.map (sequences[·]?) = seqs.map fun seq => some seq.cache) :
    heldBy blockTable sequences =
      heldBy tableOf seqs + heldBy blockTable (outside owners sequences) := by
  have caches : owners.map (sequences[·]?) = (seqs.map Sequence.cache).map some := by
    rw [placed, map_map]
    rfl
  rw [heldBy_outside nodup caches, heldBy_tableOf]

theorem heldBy_writeBack (nodup : owners.Nodup) (inList : ∀ owner ∈ owners, owner < sequences.length)
    (lengths : seqs.length = owners.length) :
    heldBy blockTable (writeBack sequences owners seqs) =
      heldBy tableOf seqs + heldBy blockTable (outside owners sequences) := by
  rw [heldBy_batch nodup (map_writeBack nodup inList lengths), outside_writeBack]

/-! ## Any run -/

structure Bookkept (session : PoolSession V) : Prop where
  positive : 0 < session.pool.blockSize
  balanced : Balanced session.pool.allocator (heldBy blockTable session.sequences)
  addressed : ∀ cache ∈ session.sequences, Addressed session.pool.blockSize cache
  unused : session.pool.numHiddenLayers = 0 → ∀ cache ∈ session.sequences, cache.numTokens = 0 ∧ cache.blockTable = []

theorem Bookkept.mem_sequences {sess : PoolSession V} {seq : Sequence}
    (placed : owners.map (sess.sequences[·]?) = seqs.map fun seq => some seq.cache) (mem : seq ∈ seqs) :
    seq.cache ∈ sess.sequences := by
  have inList : some seq.cache ∈ owners.map (sess.sequences[·]?) := by grind
  obtain ⟨_, -, same⟩ := mem_map.mp inList
  exact mem_of_getElem? same

structure Shelved (Fits : PagedKVCache → Prop) (size layers : Nat) (cached : Multiset Nat) (session : PoolSession V) :
    Prop where
  blockSize : session.pool.blockSize = size
  layers : session.pool.numHiddenLayers = layers
  balanced : Balanced session.pool.allocator (cached + heldBy blockTable session.sequences)
  fits : ∀ cache ∈ session.sequences, Fits cache

structure Lasting (V : Type) (Fits : PagedKVCache → Prop) (size layers : Nat) : Prop where
  taken : 0 < layers → Suits V Fits size
  emptied : ∀ start, Fits { start }
  copied : ∀ cache, Fits cache → Fits { cache with start := 0 }

theorem attach_table (size : Nat) (blocks : List Nat) :
    (PrefixCache.attach size {} blocks).2.blockTable = blocks := by
  cases blocks with
  | nil => rfl
  | cons => simp [PrefixCache.attach, PagedKVCache.appendBlock, foldl_appendBlock]

theorem balanced_push {alloc : BlockAllocator} {cached : Multiset Nat}
    (held : Balanced alloc (↑cache.blockTable + (cached + heldBy blockTable sequences))) :
    Balanced alloc (cached + heldBy blockTable (sequences ++ [cache])) := by
  rw [heldBy_append, heldBy_cons, heldBy_nil, add_zero, ← add_assoc, add_comm]
  exact held

section

variable {sess : PoolSession V}

theorem batch_placed (inList : ∀ owner ∈ owners, owner < sess.sequences.length) :
    owners.map (sess.sequences[·]?) = (sess.batch owners).map fun seq => some seq.cache := by
  induction owners with
  | nil => rfl
  | cons owner _ ih =>
    have placed := getElem?_eq_getElem (inList owner mem_cons_self)
    simp only [PoolSession.batch, map_cons, placed, filterMap_cons, Option.map_some]
    rw [ih fun other mem => inList other (mem_cons_of_mem _ mem)]
    rfl

theorem pass_scattered (batch : BatchedPagedCache) (rows : List (Nat → V)) (pool : PagedCachePool V) (count : Nat) :
    ∃ gathered after, batch.pass rows pool count = .ok (gathered, after) ∧ Scattered pool after batch.writeSlots := by
  induction count with
  | zero => exact ⟨_, _, rfl, rfl, rfl, rfl, fun _ _ _ => rfl⟩
  | succ count ih =>
    obtain ⟨gathered, after, passed, scattered⟩ := ih
    refine ⟨_, _, by simp only [BatchedPagedCache.pass, passed]; rfl, ?_⟩
    exact scattered.write count _

end

namespace Shelved

variable {Fits : PagedKVCache → Prop} {size layers sequence : Nat} {cached : Multiset Nat} {sess : PoolSession V}

section

variable (shelved : Shelved Fits size layers cached sess)
include shelved

theorem apart (placed : sess.sequences[sequence]? = some cache) :
    Balanced sess.pool.allocator
      (↑cache.blockTable + (cached + heldBy blockTable (sess.sequences.eraseIdx sequence))) := by
  rw [add_left_comm, ← heldBy_of_getElem? placed]
  exact shelved.balanced

theorem replace (placed : sess.sequences[sequence]? = some cache) {after : Paged V}
    (shelf : Shelf Fits (cached + heldBy blockTable (sess.sequences.eraseIdx sequence)) (sess.pool, cache) after) :
    Shelved Fits size layers cached { pool := after.1, sequences := sess.sequences.set sequence after.2 } where
  blockSize := shelf.shape.blockSize.trans shelved.blockSize
  layers := shelf.shape.numHiddenLayers.trans shelved.layers
  balanced := by
    rw [heldBy_set (List.getElem?_eq_some_iff.mp placed).1, add_left_comm]
    exact shelf.balanced
  fits other mem := by
    cases mem_or_eq_of_mem_set mem with
    | inl mem => exact shelved.fits other mem
    | inr same => exact same ▸ shelf.fits

theorem push {next : PagedKVCache} (shape : SameShape sess.pool pool)
    (bal : Balanced pool.allocator (↑next.blockTable + (cached + heldBy blockTable sess.sequences)))
    (fits : Fits next) : Shelved Fits size layers cached { pool, sequences := sess.sequences ++ [next] } where
  blockSize := shape.blockSize.trans shelved.blockSize
  layers := shape.numHiddenLayers.trans shelved.layers
  balanced := balanced_push bal
  fits := forall_mem_append.mpr ⟨shelved.fits, forall_mem_singleton.mpr fits⟩

theorem pass (lasting : Lasting V Fits size layers) (placed : sess.sequences[sequence]? = some cache)
    (chunk : Chunk V) :
    let shelf := Shelf Fits (cached + heldBy blockTable (sess.sequences.eraseIdx sequence)) (sess.pool, cache)
    Ends (PagedKVCache.pass chunk (sess.pool, cache) sess.pool.numHiddenLayers) (fun result => shelf result.2) shelf := by
  intro shelf
  have still : shelf (sess.pool, cache) :=
    ⟨shelved.apart placed, shelved.fits cache (mem_of_getElem? placed), .refl _⟩
  rw [shelved.layers]
  cases layers with
  | zero => exact still
  | succ =>
    have durable : Durable shelf := (lasting.taken (Nat.succ_pos _)).durable shelved.blockSize
    exact durable.pass still chunk _

theorem call (lasting : Lasting V Fits size layers) (poolCall : PoolCall V) :
    ∃ reply next, sess.call poolCall = .ok (reply, next) ∧ Shelved Fits size layers cached next := by
  cases poolCall with
  | allocate =>
    simp only [PoolSession.call, PagedCachePool.allocate]
    by_cases exhausted : sess.pool.allocator.numFree = 0
    · simp only [if_pos exhausted]
      exact ⟨_, _, rfl, shelved⟩
    · simp only [if_neg exhausted]
      refine ⟨_, _, rfl, shelved.push (.refl _) ?_ (lasting.emptied 0)⟩
      simpa using shelved.balanced
  | update sequence chunk =>
    simp only [PoolSession.call]
    cases placed : sess.sequences[sequence]? with
    | none => exact ⟨_, _, rfl, shelved⟩
    | some =>
      have passed := shelved.pass lasting placed chunk
      unfold Ends at passed
      split at passed
      case h_1 _ returned =>
        simp only [returned]
        exact ⟨_, _, rfl, shelved.replace placed passed⟩
      case h_2 _ raised =>
        simp only [raised]
        exact ⟨_, _, rfl, shelved.replace placed passed⟩
      case h_3 => exact passed.elim
  | fork sequence =>
    simp only [PoolSession.call]
    cases placed : sess.sequences[sequence]? with
    | none => exact ⟨_, _, rfl, shelved⟩
    | some cache =>
      obtain ⟨alloc, forked, bal, sameBlocks⟩ := fork_spec (shelved.apart placed)
      simp only [forked]
      refine ⟨_, _, rfl, shelved.push ⟨rfl, rfl, sameBlocks⟩ ?_
        (lasting.copied cache (shelved.fits cache (mem_of_getElem? placed)))⟩
      rw [heldBy_of_getElem? placed, add_left_comm cached]
      exact bal
  | free sequence =>
    simp only [PoolSession.call]
    cases placed : sess.sequences[sequence]? with
    | none => exact ⟨_, _, rfl, shelved⟩
    | some cache =>
      obtain ⟨alloc, freed, bal, sameBlocks, -⟩ := free_spec (shelved.apart placed)
      have shelf : Shelf Fits (cached + heldBy blockTable (sess.sequences.eraseIdx sequence)) (sess.pool, cache)
          ({ sess.pool with allocator := alloc }, { cache with blockTable := [], numTokens := 0, slots := [] }) :=
        ⟨by simpa using bal, lasting.emptied _, ⟨rfl, rfl, sameBlocks⟩⟩
      simp only [freed]
      exact ⟨_, _, rfl, shelved.replace placed shelf⟩

theorem attach (blocks : List Nat)
    (fits : blocks.Nodup → (∀ block ∈ blocks, block ∈ cached + heldBy blockTable sess.sequences) →
      Fits (PrefixCache.attach sess.pool.blockSize {} blocks).2) :
    ∃ next, sess.attach blocks = .ok next ∧ Shelved Fits size layers cached next := by
  unfold PoolSession.attach
  by_cases valid : blocks.Nodup ∧ ∀ block ∈ blocks, 0 < sess.pool.allocator.refCount block
  · have held : ∀ block ∈ blocks, block ∈ cached + heldBy blockTable sess.sequences := by
      intro block mem
      have counted := valid.2 block mem
      rw [BlockAllocator.refCount, shelved.balanced.refs] at counted
      exact Multiset.count_pos.mp counted
    obtain ⟨_, shared, bal, sameBlocks, -⟩ := shelved.balanced.increfAll_spec held
    simp only [if_pos valid, shared]
    refine ⟨_, rfl, shelved.push ⟨rfl, rfl, sameBlocks⟩ ?_ (fits valid.1 held)⟩
    rw [attach_table]
    exact bal
  · rw [if_neg valid]
    exact ⟨_, rfl, shelved⟩

theorem replaceAll (nodup : owners.Nodup) (inList : ∀ owner ∈ owners, owner < sess.sequences.length)
    {after : PagedCachePool V × List Sequence}
    (shelves : BatchShelf Fits (cached + heldBy blockTable (outside owners sess.sequences)) sess.pool
      (sess.batch owners) after) :
    Shelved Fits size layers cached { pool := after.1, sequences := writeBack sess.sequences owners after.2 } := by
  have lengths : after.2.length = owners.length := by
    rw [shelves.length]
    simpa using (congrArg List.length (batch_placed inList)).symm
  have placed := map_writeBack nodup inList lengths
  refine ⟨shelves.shape.blockSize.trans shelved.blockSize, shelves.shape.numHiddenLayers.trans shelved.layers, ?_, ?_⟩
  · rw [heldBy_writeBack nodup inList lengths, add_left_comm]
    exact shelves.balanced
  · intro cache mem
    obtain ⟨index, here⟩ := mem_iff_getElem?.mp mem
    by_cases owned : index ∈ owners
    · have inBatch : some cache ∈ after.2.map fun seq => some seq.cache := by
        rw [← placed, ← here]
        exact mem_map_of_mem (f := fun owner => (writeBack sess.sequences owners after.2)[owner]?) owned
      obtain ⟨seq, seqIn, same⟩ := mem_map.mp inBatch
      exact Option.some.inj same ▸ shelves.fits seq seqIn
    · rw [getElem?_writeBack owned] at here
      exact shelved.fits cache (mem_of_getElem? here)

theorem decode (lasting : Lasting V Fits size layers) (owners : List Nat) (rows : List (Nat → V)) :
    ∃ next, sess.decode owners rows = .ok next ∧ Shelved Fits size layers cached next := by
  unfold PoolSession.decode
  by_cases valid : owners.Nodup ∧ (∀ owner ∈ owners, owner < sess.sequences.length) ∧
      0 < sess.pool.numHiddenLayers
  · rw [if_pos valid]
    obtain ⟨nodup, inList, layered⟩ := valid
    have placed := batch_placed inList
    have bal := shelved.balanced
    rw [heldBy_batch nodup placed, add_left_comm] at bal
    have fits : ∀ seq ∈ sess.batch owners, Fits seq.cache :=
      fun seq mem => shelved.fits _ (Bookkept.mem_sequences placed mem)
    unfold prepare
    by_cases short : need sess.pool (sess.batch owners) > sess.pool.allocator.numFree
    · simp only [if_pos short]
      have still : BatchShelf Fits (cached + heldBy blockTable (outside owners sess.sequences)) sess.pool
          (sess.batch owners) (sess.pool, sess.batch owners) := ⟨bal, fits, .refl _, rfl⟩
      exact ⟨_, rfl, shelved.replaceAll nodup inList still⟩
    · simp only [if_neg short]
      have committed := commit_shelf (lasting.taken (shelved.layers ▸ layered)) shelved.blockSize bal fits
      unfold Ends at committed
      split at committed
      case h_1 result returned =>
        obtain ⟨pool, seqs, write⟩ := result
        obtain ⟨_, after, passed, scattered⟩ :=
          pass_scattered (indices seqs write) rows pool pool.numHiddenLayers
        simp only [returned, passed]
        have shape : SameShape pool after :=
          ⟨scattered.blockSize, scattered.numHiddenLayers, congrArg BlockAllocator.numBlocks scattered.allocator⟩
        refine ⟨_, rfl, @replaceAll V owners Fits size layers cached sess shelved nodup inList (after, seqs)
          ⟨?_, committed.fits, committed.shape.trans shape, committed.length⟩⟩
        rw [scattered.allocator]
        exact committed.balanced
      case h_2 _ raised =>
        simp only [raised]
        exact ⟨_, rfl, shelved.replaceAll nodup inList committed⟩
      case h_3 => exact committed.elim
  · rw [if_neg valid]
    exact ⟨_, rfl, shelved⟩

theorem step (lasting : Lasting V Fits size layers)
    (fits : ∀ blocks, blocks.Nodup → (∀ block ∈ blocks, block ∈ cached + heldBy blockTable sess.sequences) →
      Fits (PrefixCache.attach sess.pool.blockSize {} blocks).2) (action : PoolAction V) :
    ∃ next, sess.step action = .ok next ∧ Shelved Fits size layers cached next := by
  cases action with
  | call poolCall =>
    obtain ⟨_, next, called, kept⟩ := shelved.call lasting poolCall
    exact ⟨next, by simp only [PoolSession.step, called], kept⟩
  | attach blocks => exact shelved.attach blocks (fits blocks)
  | decode owners rows => exact shelved.decode lasting owners rows

end

end Shelved

namespace Bookkept

variable {sess : PoolSession V}

theorem split (bookkept : Bookkept sess) (nodup : owners.Nodup)
    (placed : owners.map (sess.sequences[·]?) = seqs.map fun seq => some seq.cache) :
    Balanced sess.pool.allocator
        (heldBy tableOf seqs + heldBy blockTable (outside owners sess.sequences)) ∧
      ∀ seq ∈ seqs, Addressed sess.pool.blockSize seq.cache := by
  refine ⟨?_, ?_⟩
  · rw [← heldBy_batch nodup placed]
    exact bookkept.balanced
  · exact fun seq mem => bookkept.addressed _ (mem_sequences placed mem)

def Tabled (size layers : Nat) (cache : PagedKVCache) : Prop :=
  Addressed size cache ∧ (layers = 0 → cache.numTokens = 0 ∧ cache.blockTable = [])

theorem suits_addressed {size : Nat} (pos : 0 < size) : Suits V (Addressed size) size where
  unshared rest pool cache sized bal addressed := by
    subst sized
    refine (unshareTail_spec pos bal addressed).mono (fun after unshared => ?_) ?_
    · exact ⟨unshared.1.balanced, unshared.1.addressed, unshared.1.shape⟩
    · rintro left ⟨rfl, -⟩
      exact ⟨bal, addressed, .refl pool⟩
  appended rest pool cache count sized bal addressed := by
    subst sized
    refine (appendBlocks_spec count bal addressed).mono (fun after appended => ?_) ?_
    · exact ⟨appended.balanced, appended.addressed, appended.shape⟩
    · rintro left ⟨-, taken, appended⟩
      exact ⟨appended.balanced, appended.addressed, appended.shape⟩
  written _ _ _ addressed := ⟨addressed.nodup, addressed.slots⟩

theorem lasting_tabled {size : Nat} (pos : 0 < size) (layers : Nat) : Lasting V (Tabled size layers) size layers where
  taken layered := by
    have same : Tabled size layers = Addressed size := by
      funext cache
      exact propext (and_iff_left fun layerless => absurd layerless (Nat.ne_of_gt layered))
    rw [same]
    exact suits_addressed pos
  emptied _ := ⟨⟨nodup_nil, rfl⟩, fun _ => ⟨rfl, rfl⟩⟩
  copied _ tabled := ⟨⟨tabled.1.nodup, tabled.1.slots⟩, tabled.2⟩

theorem tabled_attach {size layers : Nat} (pos : 0 < size) (shelved : Shelved (Tabled size layers) size layers 0 sess)
    (blocks : List Nat) (nodup : blocks.Nodup) (held : ∀ block ∈ blocks, block ∈ 0 + heldBy blockTable sess.sequences) :
    Tabled size layers (PrefixCache.attach sess.pool.blockSize {} blocks).2 := by
  obtain ⟨cache, attached, formed, rfl, tokens⟩ := attach_spec pos nodup
  rw [shelved.blockSize, attached]
  refine ⟨formed.toAddressed, fun layerless => ?_⟩
  -- Without a layer no block is in use.
  have nothing : cache.blockTable = [] := by
    refine eq_nil_iff_forall_not_mem.mpr fun block mem => ?_
    have inUse := held block mem
    rw [zero_add] at inUse
    obtain ⟨other, otherIn, blockIn⟩ := mem_heldBy.mp inUse
    rw [((shelved.fits other otherIn).2 layerless).2] at blockIn
    cases blockIn
  rw [tokens, nothing]
  exact ⟨Nat.zero_mul _, rfl⟩

theorem run {numBlocks size numHiddenLayers : Nat} {zero : V} (pos : 0 < size)
    (actions : List (PoolAction V)) :
    ∃ sess, Lib.run PoolSession.step (.new numBlocks size numHiddenLayers zero) actions = .ok sess ∧
      Bookkept sess := by
  have started : Shelved (Tabled size numHiddenLayers) size numHiddenLayers 0
      (PoolSession.new numBlocks size numHiddenLayers zero) :=
    ⟨rfl, rfl, Balanced.new numBlocks, by rintro _ ⟨⟩⟩
  obtain ⟨sess, ran, shelved⟩ := run_total
    (fun _ action shelved => Shelved.step shelved (lasting_tabled pos _) (tabled_attach pos shelved) action)
    actions started
  refine ⟨sess, ran, by rw [shelved.blockSize]; exact pos, by simpa using shelved.balanced, fun cache mem => ?_,
    fun layerless cache mem => (shelved.fits cache mem).2 (shelved.layers ▸ layerless)⟩
  rw [shelved.blockSize]
  exact (shelved.fits cache mem).1

end Bookkept

/-- Every sequence of a batch has one token more and again a table exactly as long as its tokens need. -/
structure OneMore (blockSize : Nat) (seq next : Sequence) : Prop where
  same : next = { seq with cache := next.cache }
  numTokens : next.cache.numTokens = seq.cache.numTokens + 1
  covers : (tableOf next).length = ceilDiv next.cache.numTokens blockSize

/-- Distinct sequences of the session, with tables as long as their tokens need. -/
structure Batchable (session : PoolSession V) (owners : List Nat) (seqs : List Sequence) : Prop where
  nodup : owners.Nodup
  placed : owners.map (session.sequences[·]?) = seqs.map fun seq => some seq.cache
  covers : ∀ seq ∈ seqs, (tableOf seq).length = ceilDiv seq.cache.numTokens session.pool.blockSize

/-- For every such batch `_prepare` raises and nothing has changed, or its commit phase does not
raise and everyone has grown by one token. -/
def PreparesWhole (session : PoolSession V) : Prop :=
  ∀ owners seqs, Batchable session owners seqs →
    prepare session.pool seqs = .error (.outOfBlocks (session.pool, seqs)) ∨
      ∃ after grown write, commit session.pool seqs = .ok (after, grown, write) ∧
        prepare session.pool seqs = .ok (after, grown, indices grown write) ∧
        Forall₂ (OneMore session.pool.blockSize) seqs grown

theorem prepare_all_or_nothing {numBlocks blockSize numHiddenLayers : Nat} {zero : V} (positive : 0 < blockSize)
    (actions : List (PoolAction V)) :
    Yields (Lib.run PoolSession.step (.new numBlocks blockSize numHiddenLayers zero) actions) PreparesWhole := by
  obtain ⟨session, ran, bookkept⟩ := Bookkept.run positive actions
  refine ⟨session, ran, ?_⟩
  intro owners seqs batchable
  obtain ⟨balanced, addressed⟩ := bookkept.split batchable.nodup batchable.placed
  have wellFormed : ∀ seq ∈ seqs, WellFormed session.pool.blockSize seq.cache :=
    fun seq member => ⟨addressed seq member, batchable.covers seq member⟩
  cases prepare_cases (commit_spec bookkept.positive balanced wellFormed) with
  | inl short => exact .inl short.2
  | inr enough =>
    obtain ⟨-, after, grown, write, commits, prepared, committed⟩ := enough
    refine .inr ⟨after, grown, write, commits, prepared, List.forall₂_iff_get.mpr ⟨committed.length.symm, ?_⟩⟩
    intro index inSeqs inGrown
    have extended := committed.each index _ _ (List.getElem?_eq_getElem inSeqs) (List.getElem?_eq_getElem inGrown)
    exact ⟨extended.same, extended.numTokens, extended.wellFormed.covers⟩

instance (session : PoolSession V) (owners : List Nat) (seqs : List Sequence) :
    Decidable (Batchable session owners seqs) :=
  decidable_of_iff
    (owners.Nodup ∧ owners.map (session.sequences[·]?) = (seqs.map fun seq => some seq.cache) ∧
      ∀ seq ∈ seqs, (tableOf seq).length = ceilDiv seq.cache.numTokens session.pool.blockSize)
    ⟨fun ⟨nodup, placed, covers⟩ => ⟨nodup, placed, covers⟩,
      fun batchable => ⟨batchable.nodup, batchable.placed, batchable.covers⟩⟩

/-- Three tokens, a fork that shares their partly filled tail. -/
def sharedTail : List (PoolAction Nat) :=
  [.call .allocate, .call (.update 0 ⟨3, fun _ => [1, 2, 3], fun _ => rfl⟩), .call (.fork 0), .attach [0]]

/-- With two free blocks both grow, one into a copy of the tail and then the other into the tail
itself. -/
theorem prepare_all_or_nothing_shared :
    0 < 2 ∧ Yields (Lib.run PoolSession.step (.new 4 2 2 0) sharedTail) PreparesWhole ∧
      Yields (Lib.run PoolSession.step (.new 4 2 2 0) sharedTail) (fun session =>
        Batchable session [0, 1] (session.batch [0, 1]) ∧
          Yields (BatchedPagedCache.prepare session.pool (session.batch [0, 1])) fun prepared =>
            prepared.2.1.map (fun next => (tableOf next, next.cache.numTokens)) = [([0, 2], 4), ([0, 1], 4)]) ∧
      Yields (Lib.run PoolSession.step (.new 3 2 2 0) sharedTail) fun session =>
        Batchable session [0, 1] (session.batch [0, 1]) ∧
          ¬Yields (BatchedPagedCache.prepare session.pool (session.batch [0, 1])) fun _ => True :=
  ⟨by decide, prepare_all_or_nothing (by decide) sharedTail, by decide +kernel, by decide +kernel⟩

/-! ## One sequence after another -/

theorem appendBlocks_rebase {count : Nat} {after : Paged V} (kv : Nat → Nat → V) (start : Nat)
    (appended : appendBlocks pool cache count = .ok after) :
    appendBlocks { pool with kv } { cache with start } count =
      .ok ({ after.1 with kv }, { after.2 with start }) := by
  induction count generalizing pool cache with
  | zero =>
    cases appended
    rfl
  | succ _ ih =>
    simp only [appendBlocks] at appended ⊢
    cases allocated : pool.allocator.allocate with
    | none =>
      rw [allocated] at appended
      cases appended
    | some =>
      rw [allocated] at appended
      exact ih appended

theorem unshareTail_rebase {after : Paged V} (kv : Nat → Nat → V) (start : Nat)
    (unshared : unshareTail pool cache = .ok after) :
    ∃ stored, unshareTail { pool with kv } { cache with start } =
      .ok ({ after.1 with kv := stored }, { after.2 with start }) := by
  unfold unshareTail at unshared ⊢
  cases lastEq : cache.blockTable.getLast? with
  | none =>
    simp only [lastEq] at unshared ⊢
    cases unshared
    exact ⟨kv, rfl⟩
  | some tail =>
    simp only [lastEq] at unshared ⊢
    by_cases sole : pool.allocator.refCount tail ≤ 1
    · rw [if_pos sole] at unshared ⊢
      cases unshared
      exact ⟨kv, rfl⟩
    · rw [if_neg sole] at unshared ⊢
      cases allocated : pool.allocator.allocate with
      | none =>
        rw [allocated] at unshared
        cases unshared
      | some taken =>
        simp only [allocated, PagedCachePool.copyBlock] at unshared ⊢
        cases dropped : taken.2.decref tail with
        | error =>
          rw [dropped] at unshared
          cases unshared
        | ok =>
          rw [dropped] at unshared
          cases unshared
          exact ⟨_, rfl⟩

theorem grow_rebase {n : Nat} {after : Paged V} (kv : Nat → Nat → V) (start : Nat)
    (grew : PagedKVCache.grow pool cache n = .ok after) :
    ∃ stored, PagedKVCache.grow { pool with kv } { cache with start } n =
      .ok ({ after.1 with kv := stored }, { after.2 with start }) := by
  -- The first stage, whether or not there is a tail to copy.
  have started : ∀ middle, (if cache.numTokens % pool.blockSize ≠ 0 then unshareTail pool cache
        else .ok (pool, cache)) = .ok middle →
      ∃ stored, (if cache.numTokens % pool.blockSize ≠ 0 then
          unshareTail { pool with kv } { cache with start }
        else .ok ({ pool with kv }, { cache with start })) =
          .ok ({ middle.1 with kv := stored }, { middle.2 with start }) := by
    intro middle reached
    by_cases partlyFull : cache.numTokens % pool.blockSize ≠ 0
    · rw [if_pos partlyFull] at reached ⊢
      exact unshareTail_rebase kv start reached
    · rw [if_neg partlyFull] at reached ⊢
      cases reached
      exact ⟨kv, rfl⟩
  unfold PagedKVCache.grow at grew ⊢
  cases reached : (if cache.numTokens % pool.blockSize ≠ 0 then unshareTail pool cache
      else .ok (pool, cache)) with
  | error =>
    simp only [reached] at grew
    cases grew
  | ok middle =>
    obtain ⟨middleStored, rebased⟩ := started _ reached
    simp only [reached] at grew
    cases appended : ensureCapacity middle.1 middle.2 n with
    | error =>
      simp only [appended] at grew
      cases grew
    | ok =>
      simp only [appended] at grew
      cases grew
      have capacity := appendBlocks_rebase middleStored start appended
      refine ⟨middleStored, ?_⟩
      simp only [rebased, ensureCapacity, capacity]

theorem pass_grow {chunk : Chunk V} {count : Nat} {returned : List (List V)} {after : Paged V}
    (passed : PagedKVCache.pass chunk (pool, cache) (count + 1) = .ok (returned, after)) :
    ∃ grown kv, PagedKVCache.grow pool { cache with start := cache.numTokens } chunk.n = .ok grown ∧
      after = ({ grown.1 with kv }, grown.2) := by
  induction count generalizing returned after with
  | zero =>
    simp only [PagedKVCache.pass, PagedKVCache.update, if_pos, chunk.length] at passed
    cases grew : PagedKVCache.grow pool { cache with start := cache.numTokens } chunk.n with
    | error =>
      simp only [grew] at passed
      cases passed
    | ok grown =>
      simp only [grew] at passed
      cases passed
      exact ⟨grown, _, rfl, rfl⟩
  | succ count ih =>
    unfold PagedKVCache.pass at passed
    cases earlier : PagedKVCache.pass chunk (pool, cache) (count + 1) with
    | error =>
      simp only [earlier] at passed
      cases passed
    | ok result =>
      obtain ⟨_, _⟩ := result
      obtain ⟨grown, kv, grew, rfl⟩ := ih earlier
      simp only [earlier, PagedKVCache.update, if_neg (Nat.succ_ne_zero count)] at passed
      cases passed
      exact ⟨grown, _, grew, rfl⟩

theorem pass_ok {state : Paged V} {rest : Multiset Nat} (chunk : Chunk V) (pos : 0 < state.1.blockSize)
    (layered : 0 < state.1.numHiddenLayers) (bal : Balanced state.1.allocator (↑state.2.blockTable + rest))
    (formed : WellFormed state.1.blockSize state.2)
    (enough : growNeed state.1 state.2 chunk.n ≤ state.1.allocator.numFree) :
    ∃ after, PagedKVCache.pass chunk state state.1.numHiddenLayers =
        .ok ((range state.1.numHiddenLayers).map (fun layer => rowsOf state layer ++ chunk.rows layer), after) ∧
      Passing rest state after chunk.n state.1.numHiddenLayers chunk.rows := by
  have passed := pass_spec chunk pos bal formed (Nat.le_refl _)
  unfold Ends at passed
  split at passed
  case h_1 result returned =>
    obtain ⟨rowsEq, passing⟩ := passed
    rw [if_neg (Nat.ne_of_gt layered)] at passing
    rw [← rowsEq]
    exact ⟨result.2, returned, passing⟩
  case h_2 => exact absurd passed.2 (Nat.not_lt.mpr enough)
  case h_3 => exact passed.elim

theorem pass_one (kv : Nat → Nat → V) (row : Nat → V) (pos : 0 < pool.blockSize)
    (layered : 0 < pool.numHiddenLayers) (bal : Balanced pool.allocator (↑cache.blockTable + rest))
    (formed : WellFormed pool.blockSize cache) (enough : growNeed pool cache 1 ≤ pool.allocator.numFree) :
    ∃ returned grown next stored rebased,
      PagedKVCache.pass (.one row) (pool, cache) pool.numHiddenLayers =
        .ok (returned, { grown with kv := stored }, next) ∧
      Passing rest (pool, cache) ({ grown with kv := stored }, next) 1 pool.numHiddenLayers (Chunk.one row).rows ∧
      Grown rest (pool, { cache with start := cache.numTokens }) (grown, next) 1 ∧
      PagedKVCache.grow { pool with kv } cache 1 =
        .ok ({ grown with kv := rebased }, { next with start := cache.start }) := by
  obtain ⟨_, passed, passing⟩ := @pass_ok V (pool, cache) _ (.one row) pos layered bal formed enough
  obtain ⟨_, countEq⟩ := Nat.exists_eq_succ_of_ne_zero (Nat.ne_of_gt layered)
  have passedGrow := passed
  rw [countEq] at passedGrow
  obtain ⟨⟨grown, next⟩, stored, grew, rfl⟩ := pass_grow passedGrow
  obtain ⟨rebased, grewBatch⟩ := grow_rebase kv cache.start grew
  have spec := @grow_spec V pool { cache with start := cache.numTokens } _ 1 pos bal
    ⟨⟨formed.nodup, formed.slots⟩, formed.covers⟩
  rw [show PagedKVCache.grow pool { cache with start := cache.numTokens } 1 = _ from grew] at spec
  exact ⟨_, grown, next, stored, rebased, passed, passing, spec, grewBatch⟩

/-- The same blocks for the same positions. -/
structure SameTable (next one : Sequence) : Prop where
  blockTable : tableOf one = tableOf next
  numTokens : one.cache.numTokens = next.cache.numTokens
  slots : one.cache.slots = next.cache.slots

structure Updated (rest : Multiset Nat) (before : PagedCachePool V) (seqs : List Sequence) (rows : List (Nat → V))
    (committed : BlockAllocator) (grown : List Sequence) (last : PagedCachePool V) (ones : List Sequence) : Prop where
  allocator : last.allocator = committed
  blockSize : last.blockSize = before.blockSize
  tables : Forall₂ SameTable grown ones
  keeps : Keeps before last rest
  rows : ∀ (index : Nat) seq row one, seqs[index]? = some seq → rows[index]? = some row → ones[index]? = some one →
    ∀ layer, layer < before.numHiddenLayers →
      rowsOf (last, one.cache) layer = rowsOf (before, seq.cache) layer ++ [row layer]

-- The batch may start from a pool with other rows in it: behind the first
-- sequence that is the case, since here its token is written already.
theorem updateEach_spec {pool : PagedCachePool V} {kv : Nat → Nat → V} {seqs : List Sequence} {rows : List (Nat → V)}
    {rest : Multiset Nat} {after : PagedCachePool V} {grown : List Sequence} {write : List Nat}
    (pos : 0 < pool.blockSize) (layered : 0 < pool.numHiddenLayers)
    (bal : Balanced pool.allocator (heldBy tableOf seqs + rest))
    (formed : ∀ seq ∈ seqs, WellFormed pool.blockSize seq.cache)
    (enough : need pool seqs ≤ pool.allocator.numFree) (lengths : rows.length = seqs.length)
    (committed : commit { pool with kv } seqs = .ok (after, grown, write)) :
    ∃ last ones, updateEach pool (seqs.zip rows) = .ok (last, ones) ∧
      Updated rest pool seqs rows after.allocator grown last ones := by
  induction seqs generalizing pool kv rows rest grown write with
  | nil =>
    cases committed
    refine ⟨pool, [], rfl, rfl, rfl, .nil, .refl pool rest, ?_⟩
    intro index seq row one placed
    simp at placed
  | cons seq seqs ih =>
    cases rows with
    | nil => cases lengths
    | cons row rows =>
      have seqFormed := formed seq mem_cons_self
      have apart := balanced_head bal
      have headNeed := needOf_eq_growNeed pos seqFormed.covers
      have headEnough := (needOf_le_need mem_cons_self).trans enough
      obtain ⟨_, grownPool, cache, stored, rebased, passed, passing, headGrown, grewBatch⟩ :=
        pass_one kv row pos layered apart seqFormed (headNeed ▸ headEnough)
      have sizeEq : grownPool.blockSize = pool.blockSize := headGrown.shape.blockSize
      have layersEq : grownPool.numHiddenLayers = pool.numHiddenLayers := headGrown.shape.numHiddenLayers
      simp only [commit, grewBatch] at committed
      cases committedTail : commit { grownPool with kv := rebased } seqs with
      | error raised =>
        cases raised <;> simp [committedTail] at committed
      | ok result =>
        obtain ⟨_, tailGrown, tailWrite⟩ := result
        simp only [committedTail, Except.ok.injEq, Prod.mk.injEq] at committed
        obtain ⟨rfl, rfl, -⟩ := committed
        obtain ⟨middleBalanced, middleEnough⟩ := behind_head sizeEq
          headGrown.balanced (fun _ mem => headGrown.refs_le apart mem) (headNeed ▸ headGrown.numFree) enough
        obtain ⟨last, ones, updated, spec⟩ := @ih { grownPool with kv := stored } rebased rows _ tailGrown
          tailWrite (by grind) (by simp only [layersEq]; exact layered) middleBalanced
          (fun other mem => by
            simp only [sizeEq]
            exact formed other (mem_cons_of_mem _ mem))
          middleEnough (Nat.succ.inj lengths) committedTail
        refine ⟨last, { seq with cache := cache } :: ones,
          by simp only [zip_cons_cons, updateEach, passed, updated], spec.allocator,
          spec.blockSize.trans sizeEq, .cons ⟨rfl, rfl, rfl⟩ spec.tables, ?_, ?_⟩
        · exact @Keeps.trans V pool { grownPool with kv := stored } last rest sizeEq
            (passing.keeps.mono fun _ held => Multiset.mem_add.mpr (.inr held))
            (spec.keeps.mono fun _ held => Multiset.mem_add.mpr (.inr held))
        · intro index other otherRow one placed given onePlaced layer inModel
          cases index with
          | zero =>
            simp only [getElem?_cons_zero, Option.some.injEq] at placed given onePlaced
            subst placed given onePlaced
            have covered := passing.wellFormed.numTokens_le pos
            exact (spec.keeps.tableRows (by simp only [sizeEq]; exact pos) spec.blockSize
              (fun block mem => Multiset.mem_add.mpr (.inl (Multiset.mem_coe.mpr mem)))
              (by simp only [sizeEq]; exact covered)).trans (passing.visited layer inModel inModel)
          | succ index =>
            simp only [getElem?_cons_succ] at placed given onePlaced
            have mem := mem_of_getElem? placed
            rw [spec.rows index other otherRow one placed given onePlaced layer (by simp only [layersEq]; exact inModel)]
            congr 1
            exact passing.keeps.tableRows pos sizeEq (fun _ blockIn => mem_held_others mem blockIn)
              ((formed other (mem_cons_of_mem _ mem)).numTokens_le pos)

/-! ## All sequences at once -/

section BatchedPass

variable {write : List Nat} {rows : List (Nat → V)}

structure MidBatch (before after : PagedCachePool V) (seqs grown : List Sequence) (batch : BatchedPagedCache)
    (rows : List (Nat → V)) (count : Nat) (gathered : List (List (List V))) (pool : PagedCachePool V) : Prop where
  scattered : Scattered after pool batch.writeSlots
  length : gathered.length = count
  visited : ∀ (index : Nat) seq next row, seqs[index]? = some seq → grown[index]? = some next →
    rows[index]? = some row → ∀ layer, layer < count →
      rowsOf (pool, next.cache) layer = rowsOf (before, seq.cache) layer ++ [row layer] ∧
      Model.admitted (batch.mask.getD index []) ((gathered.getD layer []).getD index []) =
        rowsOf (before, seq.cache) layer ++ [row layer]
  pending : ∀ (index : Nat) seq next, seqs[index]? = some seq → grown[index]? = some next →
    ∀ layer, count ≤ layer → layer < before.numHiddenLayers →
      tableRows pool (tableOf next) seq.cache.numTokens layer = rowsOf (before, seq.cache) layer

theorem batchPass_spec (pos : 0 < before.blockSize) (committed : Committed rest before seqs after grown write)
    {count : Nat} (inModel : count ≤ before.numHiddenLayers) :
    ∃ gathered final, (indices grown write).pass rows after count = .ok (gathered, final) ∧
      MidBatch before after seqs grown (indices grown write) rows count gathered final := by
  induction count with
  | zero =>
    refine ⟨[], after, rfl, ⟨rfl, rfl, rfl, fun _ _ _ => rfl⟩, rfl, ?_, ?_⟩
    · intro index seq next row _ _ _ layer below
      exact absurd below (Nat.not_lt_zero _)
    · intro index seq next placed grownPlaced layer _ layerIn
      exact (committed.each index seq next placed grownPlaced).rows layer layerIn
  | succ count ih =>
    obtain ⟨gathered, pool, passed, mid⟩ := ih (by omega)
    have ready := committed.ready
    have size : pool.blockSize = before.blockSize := mid.scattered.blockSize.trans committed.shape.blockSize
    have values : (rows.map fun row => [row count]).filterMap head? = rows.map fun row => row count := by
      rw [filterMap_map, ← filterMap_eq_map]
      rfl
    have slotsEq : write = grown.map (lastSlot before.blockSize) := committed.write
    refine ⟨_, _, by simp only [BatchedPagedCache.pass, passed, BatchedPagedCache.protocol]; rfl,
      mid.scattered.write count _, by simp [mid.length], ?_, ?_⟩
    · intro index seq next row placed grownPlaced given layer below
      by_cases same : layer = count
      · -- The layer just written.
        subst same
        have extended := committed.each index seq next placed grownPlaced
        have stored := ready.tableRows_write pos size layer grownPlaced
          (by rw [getElem?_map, given]; rfl : (rows.map fun row => row layer)[index]? = some (row layer))
        rw [extended.numTokens, Nat.add_sub_cancel, mid.pending index seq next placed grownPlaced layer (Nat.le_refl _)
          (by omega), ← slotsEq, ← values, ← extended.numTokens] at stored
        refine ⟨stored, ?_⟩
        rw [getD_append_right _ _ _ _ (Nat.le_of_eq mid.length), mid.length, Nat.sub_self, getD_cons_zero]
        have sizeAfter : (pool.write layer write ((rows.map fun row => [row layer]).filterMap head?)).blockSize =
          before.blockSize := size
        exact (admitted_gather pos ready sizeAfter write grownPlaced).trans stored
      · -- An earlier one, in another row of the pool.
        obtain ⟨stored, returned⟩ := mid.visited index seq next row placed grownPlaced given layer (by omega)
        rw [getD_append _ _ _ _ (by rw [mid.length]; omega)]
        refine ⟨?_, returned⟩
        rw [← stored]
        simp only [rowsOf, tableRows, PagedCachePool.write, Function.update_of_ne same]
    · intro index seq next placed grownPlaced layer above layerIn
      rw [← mid.pending index seq next placed grownPlaced layer (by omega) layerIn]
      simp only [tableRows, PagedCachePool.write, Function.update_of_ne (show layer ≠ count by omega)]

end BatchedPass

/-- The write slots of a prepared batch: pairwise distinct, each in a block with one reference. -/
structure SlotsApart (pool : PagedCachePool V) (batch : BatchedPagedCache) : Prop where
  nodup : batch.writeSlots.Nodup
  sole : ∀ slot ∈ batch.writeSlots, pool.allocator.refCount (slot / pool.blockSize) = 1

theorem Committed.slotsApart {write : List Nat} (committed : Committed rest before seqs after grown write)
    (pos : 0 < before.blockSize) : SlotsApart after (indices grown write) := by
  have ready := committed.ready
  have slotsEq := committed.write
  refine ⟨?_, ?_⟩
  · show write.Nodup
    rw [slotsEq]
    exact ready.nodup_lastSlots pos
  · intro slot mem
    rw [slotsEq] at mem
    obtain ⟨next, nextIn, rfl⟩ := mem_map.mp mem
    obtain ⟨index, placed⟩ := mem_iff_getElem?.mp nextIn
    have block := ready.lastSlot_block pos nextIn
    have apart : Balanced after.allocator (↑(tableOf next) + (heldBy tableOf (grown.eraseIdx index) + rest)) := by
      rw [← add_assoc, ← heldBy_of_getElem? placed]
      exact committed.balanced
    rw [committed.shape.blockSize]
    exact refCount_of_sole apart (ready.wellFormed next nextIn).nodup (mem_of_mem_drop block)
      (ready.sole index next placed _ block)

/-- The pass over a prepared batch against updates one by one. -/
structure AsOneByOne (before : PagedCachePool V) (seqs grown ones : List Sequence) (batch : BatchedPagedCache)
    (others : List PagedKVCache) (rows : List (Nat → V)) (gathered : List (List (List V)))
    (final last : PagedCachePool V) : Prop where
  returned : ∀ (index : Nat) seq row, seqs[index]? = some seq → rows[index]? = some row →
    ∃ returned left, PagedKVCache.pass (.one row) (before, seq.cache) before.numHiddenLayers = .ok (returned, left) ∧
      ∀ layer, layer < before.numHiddenLayers → returned[layer]? =
        some (Model.admitted (batch.mask.getD index []) ((gathered.getD layer []).getD index []))
  allocator : final.allocator = last.allocator
  tables : Forall₂ SameTable grown ones
  contents : ∀ (index : Nat) next one, grown[index]? = some next → ones[index]? = some one →
    ∀ layer, layer < before.numHiddenLayers → rowsOf (final, next.cache) layer = rowsOf (last, one.cache) layer
  others : ∀ cache ∈ others, ∀ layer slot, slot / before.blockSize ∈ cache.blockTable →
    final.kv layer slot = before.kv layer slot ∧ last.kv layer slot = before.kv layer slot

theorem asOneByOne_of_commit {write : List Nat} {others : List PagedKVCache} {rows : List (Nat → V)}
    (pos : 0 < before.blockSize) (layered : 0 < before.numHiddenLayers)
    (bal : Balanced before.allocator (heldBy tableOf seqs + heldBy blockTable others))
    (formed : ∀ seq ∈ seqs, WellFormed before.blockSize seq.cache)
    (enough : need before seqs ≤ before.allocator.numFree) (lengths : rows.length = seqs.length)
    (commits : commit before seqs = .ok (after, grown, write))
    (committed : Committed (heldBy blockTable others) before seqs after grown write) :
    ∃ gathered final last ones,
      (indices grown write).pass rows after before.numHiddenLayers = .ok (gathered, final) ∧
      updateEach before (seqs.zip rows) = .ok (last, ones) ∧
      AsOneByOne before seqs grown ones (indices grown write) others rows gathered final last := by
  obtain ⟨gathered, final, passed, mid⟩ := @batchPass_spec V _ before after seqs grown write rows pos committed _
    (Nat.le_refl before.numHiddenLayers)
  obtain ⟨last, ones, updated, spec⟩ :=
    updateEach_spec pos layered bal formed enough lengths commits
  refine ⟨gathered, final, last, ones, passed, updated, ?_, ?_, spec.tables, ?_, ?_⟩
  · intro index seq row placed given
    have mem := mem_of_getElem? placed
    have inSeqs := (List.getElem?_eq_some_iff.mp placed).1
    have inGrown : index < grown.length := by
      rw [committed.length]
      exact inSeqs
    have apart : Balanced before.allocator (↑(tableOf seq) +
        (heldBy tableOf (seqs.eraseIdx index) + heldBy blockTable others)) := by
      rw [← add_assoc, ← heldBy_of_getElem? placed]
      exact bal
    have seqNeed := needOf_eq_growNeed pos (formed seq mem).covers
    have single := @needOf_le_need V before seqs seq mem
    obtain ⟨left, alone, -⟩ := @pass_ok V (before, seq.cache) _ (.one row) pos layered apart
      (formed seq mem) (by simp only [Chunk.one]; omega)
    refine ⟨_, left, alone, ?_⟩
    intro layer inModel
    obtain ⟨-, masked⟩ := mid.visited index seq _ row placed (getElem?_eq_getElem inGrown) given layer inModel
    rw [masked]
    simp [inModel, Chunk.one]
  · rw [mid.scattered.allocator, spec.allocator]
  · intro index next one grownPlaced onePlaced layer inModel
    have inSeqs : index < seqs.length := by
      rw [← committed.length]
      exact (List.getElem?_eq_some_iff.mp grownPlaced).1
    have inRows : index < rows.length := by omega
    have placed := getElem?_eq_getElem inSeqs
    have given := getElem?_eq_getElem inRows
    obtain ⟨stored, -⟩ := mid.visited index _ next _ placed grownPlaced given layer inModel
    rw [stored, spec.rows index _ _ one placed given onePlaced layer inModel]
  · intro cache mem layer slot inTable
    have held := mem_heldBy.mpr ⟨cache, mem, inTable⟩
    refine ⟨?_, spec.keeps layer slot held⟩
    rw [mid.scattered.confined layer slot, committed.keeps layer slot held]
    -- A write slot lies in a block none of the others holds.
    rintro ⟨_, writtenIn, same⟩
    have slotsEq : write = grown.map (lastSlot before.blockSize) := committed.write
    rw [slotsEq] at writtenIn
    obtain ⟨next, nextIn, rfl⟩ := mem_map.mp writtenIn
    obtain ⟨index, placed⟩ := mem_iff_getElem?.mp nextIn
    rw [committed.shape.blockSize] at same
    refine committed.ready.sole index next placed _ (committed.ready.lastSlot_block pos nextIn)
      (Multiset.mem_add.mpr (.inr ?_))
    rw [same]
    exact held

def DecodesAsOneByOne (session : PoolSession V) : Prop :=
  ∀ owners seqs, Batchable session owners seqs → (∀ seq ∈ seqs, 0 < seq.cache.numTokens) →
    ∀ after grown batch, prepare session.pool seqs = .ok (after, grown, batch) →
      SlotsApart after batch ∧
      ∀ rows : List (Nat → V), rows.length = seqs.length → ∃ gathered final last ones,
        batch.pass rows after session.pool.numHiddenLayers = .ok (gathered, final) ∧
        updateEach session.pool (seqs.zip rows) = .ok (last, ones) ∧
        AsOneByOne session.pool seqs grown ones batch (outside owners session.sequences) rows gathered final last

theorem batched_decode_as_one_by_one {numBlocks blockSize numHiddenLayers : Nat} {zero : V} (positive : 0 < blockSize)
    (actions : List (PoolAction V)) :
    Yields (Lib.run PoolSession.step (.new numBlocks blockSize numHiddenLayers zero) actions) DecodesAsOneByOne := by
  obtain ⟨session, ran, bookkept⟩ := Bookkept.run positive actions
  refine ⟨session, ran, ?_⟩
  intro owners seqs batchable nonempty after grown batch prepared
  obtain ⟨balanced, addressed⟩ := bookkept.split batchable.nodup batchable.placed
  have wellFormed : ∀ seq ∈ seqs, WellFormed session.pool.blockSize seq.cache :=
    fun seq member => ⟨addressed seq member, batchable.covers seq member⟩
  cases prepare_cases (commit_spec bookkept.positive balanced wellFormed) with
  | inl short => grind
  | inr enough =>
    obtain ⟨enough, committedPool, committedSeqs, write, commits, preparedEq, committed⟩ := enough
    rw [preparedEq] at prepared
    cases prepared
    refine ⟨committed.slotsApart bookkept.positive, ?_⟩
    intro rows lengths
    by_cases layered : 0 < session.pool.numHiddenLayers
    · exact asOneByOne_of_commit bookkept.positive layered balanced wellFormed enough lengths commits committed
    · -- Without a layer no sequence ever got a token, so the batch is empty.
      cases seqs with
      | nil =>
        cases commits
        have layerless : session.pool.numHiddenLayers = 0 := by omega
        refine ⟨[], session.pool, session.pool, [], by rw [layerless]; rfl, rfl, ?_, rfl, .nil, ?_, ?_⟩
        · grind
        · omega
        · exact fun _ _ _ _ _ => ⟨rfl, rfl⟩
      | cons seq =>
        have token := nonempty seq List.mem_cons_self
        have none := (bookkept.unused (by omega) seq.cache
          (Bookkept.mem_sequences batchable.placed List.mem_cons_self)).1
        omega

theorem batched_decode_as_one_by_one_shared :
    0 < 2 ∧ Yields (Lib.run PoolSession.step (.new 4 2 2 0) sharedTail) DecodesAsOneByOne ∧
      Yields (Lib.run PoolSession.step (.new 4 2 2 0) sharedTail) fun session =>
        Batchable session [0, 1] (session.batch [0, 1]) ∧ (∀ seq ∈ session.batch [0, 1], 0 < seq.cache.numTokens) ∧
          Yields (BatchedPagedCache.prepare session.pool (session.batch [0, 1])) fun prepared =>
            prepared.2.2.writeSlots = [5, 3] :=
  ⟨by decide, batched_decode_as_one_by_one (by decide) sharedTail, by decide +kernel⟩

/-- An update that ran out of blocks left its sequence with a table longer than its tokens need. -/
theorem unused_block_is_shared :
    Yields (Lib.run PoolSession.step (.new 5 2 1 0)
      [.call .allocate, .call (.update 0 ⟨2, fun _ => [1, 2], fun _ => rfl⟩),
        .call .allocate, .call (.update 1 ⟨4, fun _ => [3, 4, 5, 6], fun _ => rfl⟩),
        .call (.update 0 ⟨5, fun _ => [7, 7, 7, 7, 7], fun _ => rfl⟩), .call (.fork 0), .call (.free 1)]) fun session =>
      (∀ seq ∈ session.batch [0, 2], seq.cache.numTokens = 2 ∧ tableOf seq = [0, 3, 4]) ∧
        Yields (BatchedPagedCache.prepare session.pool (session.batch [0, 2])) fun prepared =>
          prepared.2.2.writeSlots = [6, 6] ∧ prepared.1.allocator.refCount 3 = 2 := by
  decide +kernel

end Nanoserve.Verified
