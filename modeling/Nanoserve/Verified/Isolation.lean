import Nanoserve.Engine.PoolSession
import Nanoserve.Verified.PagedPass

/-! # Copy-on-write isolation

Every sequence over a shared pool behaves as a `DynamicCache` of its own.
-/

namespace Nanoserve.Verified

open Engine Lib List
open Model (DynamicCache)
open PagedKVCache (Paged pass)

variable {V : Type}
variable {rest : Multiset Nat} {pool : PagedCachePool V}

/-- The vectors a contiguous cache holds in one layer, for a batch of one. -/
def appended (cache : DynamicCache V) (layer : Nat) : List V := ((cache.keys.getD layer none).getD []).headD []

def Single (cache : DynamicCache V) : Prop :=
  ∀ layer rows, cache.keys.getD layer none = some rows → ∃ row, rows = [row]

theorem Single.empty : Single ({} : DynamicCache V) := by
  intro layer rows stored
  simp at stored

theorem getD_pad {α : Type} (items : List (Option α)) (count layer : Nat) :
    (items ++ replicate count none).getD layer none = items.getD layer none := by
  by_cases inItems : layer < items.length
  · rw [getD_append _ _ _ _ inItems]
  · grind

theorem keys_update {cache : DynamicCache V} (single : Single cache) (layer other : Nat) (k : List V) :
    (cache.update layer [k]).1 = [appended cache layer ++ k] ∧
      (cache.update layer [k]).2.keys.getD other none =
        if other = layer then some [appended cache layer ++ k] else cache.keys.getD other none := by
  have inKeys : layer < (cache.keys ++ replicate (layer + 1 - cache.keys.length) none).length := by
    simp only [length_append, length_replicate]
    omega
  have returned : (cache.update layer [k]).1 = [appended cache layer ++ k] := by
    simp only [DynamicCache.update, getD_pad, appended]
    cases stored : cache.keys.getD layer none with
    | none => rfl
    | some rows =>
      obtain ⟨_, rfl⟩ := single layer rows stored
      rfl
  refine ⟨returned, ?_⟩
  have keysEq : (cache.update layer [k]).2.keys =
      (cache.keys ++ replicate (layer + 1 - cache.keys.length) none).set layer
        (some (cache.update layer [k]).1) := rfl
  rw [keysEq, returned]
  by_cases same : other = layer
  · grind
  · rw [if_neg same, getD_eq_getElem?_getD, getElem?_set_ne (Ne.symm same),
      ← getD_eq_getElem?_getD, getD_pad]

theorem contiguousPass_spec {cache : DynamicCache V} (single : Single cache) (chunk : Chunk V) (count : Nat) :
    (contiguousPass chunk cache count).1 =
        (range count).map (fun layer => appended cache layer ++ chunk.rows layer) ∧
      Single (contiguousPass chunk cache count).2 ∧
      ∀ layer, appended (contiguousPass chunk cache count).2 layer =
        if layer < count then appended cache layer ++ chunk.rows layer else appended cache layer := by
  induction count with
  | zero => exact ⟨rfl, single, fun layer => rfl⟩
  | succ count ih =>
    obtain ⟨returned, stillSingle, contents⟩ := ih
    have layerRows : appended (contiguousPass chunk cache count).2 count = appended cache count := by
      rw [contents count, if_neg (Nat.lt_irrefl _)]
    have updated := fun other => keys_update stillSingle count other (chunk.rows count)
    rw [layerRows] at updated
    refine ⟨?_, ?_, ?_⟩
    · simp only [contiguousPass, returned, (updated 0).1, headD_cons, range_succ, map_append,
        map_cons, map_nil]
    · intro layer rows stored
      simp only [contiguousPass] at stored
      rw [(updated layer).2] at stored
      split at stored
      · exact ⟨_, (Option.some.inj stored).symm⟩
      · exact stillSingle layer rows stored
    · intro layer
      simp only [contiguousPass, appended]
      rw [(updated layer).2]
      by_cases same : layer = count
      · subst same
        rw [if_pos rfl, if_pos (Nat.lt_succ_self _)]
        rfl
      · rw [if_neg same]
        have above := contents layer
        simp only [appended] at above
        rw [above]
        by_cases below : layer < count
        · rw [if_pos below, if_pos (by omega)]
        · rw [if_neg below, if_neg (by omega)]

theorem pass_spec {state : Paged V} {rest : Multiset Nat} (chunk : Chunk V) (pos : 0 < state.1.blockSize)
    (bal : Balanced state.1.allocator (↑state.2.blockTable + rest))
    (formed : WellFormed state.1.blockSize state.2) {count : Nat} (inModel : count ≤ state.1.numHiddenLayers) :
    Ends (pass chunk state count)
      (fun result => result.1 = (range count).map (fun layer => rowsOf state layer ++ chunk.rows layer) ∧
        (if count = 0 then result.2 = state else Passing rest state result.2 chunk.n count chunk.rows))
      (fun left => Halted rest state left ∧ state.1.allocator.numFree < growNeed state.1 state.2 chunk.n) := by
  induction count with
  | zero => exact ⟨rfl, rfl⟩
  | succ count ih =>
    have visited := ih (by omega)
    unfold Ends at visited
    split at visited
    case h_1 result returned =>
      obtain ⟨_, _⟩ := result
      obtain ⟨rowsEq, passing⟩ := visited
      simp only at rowsEq passing
      by_cases first : count = 0
      · -- Layer 0 is the only one that can raise.
        subst first
        rw [if_pos rfl] at passing
        subst passing
        have updated := update_zero_spec chunk.rows pos inModel bal formed
        unfold Ends at updated
        split at updated
        case h_1 result updatedEq =>
          simp only [PagedKVCache.pass, updatedEq]
          rw [chunk.length] at updated
          exact ⟨by simp [updated.1], updated.2⟩
        case h_2 left updatedEq =>
          simp only [PagedKVCache.pass, updatedEq]
          rw [chunk.length] at updated
          exact updated
        case h_3 => exact updated.elim
      · rw [if_neg first] at passing
        obtain ⟨_, updatedEq, continued⟩ := passing.update pos first inModel (chunk.length count)
        simp only [PagedKVCache.pass, returned, updatedEq]
        exact ⟨by simp [rowsEq, range_succ], continued⟩
    case h_2 left raised =>
      simp only [PagedKVCache.pass, raised]
      exact visited
    case h_3 => exact visited.elim

/-! ## Pool and shadows in step -/

structure Mirrored (V : Type) where
  session : PoolSession V
  shadows : List (Option (DynamicCache V)) := []

namespace Mirrored

def new (numBlocks blockSize numHiddenLayers : Nat) (zero : V) : Mirrored V where
  session := .new numBlocks blockSize numHiddenLayers zero

/-- What a call and its reply mean for the contiguous caches. -/
def mirror (numHiddenLayers : Nat) (shadows : List (Option (DynamicCache V))) :
    PoolCall V → PoolReply V → List (Option (DynamicCache V))
  | .allocate, .sequence _ => shadows ++ [some {}]
  | .update sequence chunk, .rows _ =>
    shadows.set sequence
      ((shadows.getD sequence none).map fun shadow => (contiguousPass chunk shadow numHiddenLayers).2)
  | .update sequence _, .outOfBlocks => shadows.set sequence none
  | .fork sequence, .sequence _ => shadows ++ [shadows.getD sequence none]
  | .free sequence, .freed => shadows.set sequence (some {})
  | _, _ => shadows

def call (mirrored : Mirrored V) (poolCall : PoolCall V) : Except AllocatorError (Mirrored V) :=
  match mirrored.session.call poolCall with
  | .error raised => .error raised
  | .ok (reply, session) =>
    .ok { session, shadows := mirror mirrored.session.pool.numHiddenLayers mirrored.shadows poolCall reply }

/-- A sequence whose pass raised is only ever freed. -/
def Permitted (mirrored : Mirrored V) : PoolCall V → Prop
  | .update sequence _ => mirrored.shadows[sequence]? ≠ some none
  | .fork sequence => mirrored.shadows[sequence]? ≠ some none
  | _ => True

instance [DecidableEq V] (mirrored : Mirrored V) : (poolCall : PoolCall V) → Decidable (mirrored.Permitted poolCall)
  | .allocate => .isTrue trivial
  | .update sequence _ => inferInstanceAs (Decidable (mirrored.shadows[sequence]? ≠ some none))
  | .fork sequence => inferInstanceAs (Decidable (mirrored.shadows[sequence]? ≠ some none))
  | .free _ => .isTrue trivial

end Mirrored

structure Mirrors (pool : PagedCachePool V) (cache : PagedKVCache) (shadow : DynamicCache V) : Prop where
  wellFormed : WellFormed pool.blockSize cache
  single : Single shadow
  rows : ∀ layer, layer < pool.numHiddenLayers → rowsOf (pool, cache) layer = appended shadow layer

structure Isolated (mirrored : Mirrored V) : Prop where
  positive : 0 < mirrored.session.pool.blockSize
  balanced : Balanced mirrored.session.pool.allocator (heldBy PagedKVCache.blockTable mirrored.session.sequences)
  length : mirrored.shadows.length = mirrored.session.sequences.length
  addressed : ∀ cache ∈ mirrored.session.sequences, Addressed mirrored.session.pool.blockSize cache
  mirrors : ∀ (sequence : Nat) cache shadow, mirrored.session.sequences[sequence]? = some cache →
    mirrored.shadows[sequence]? = some (some shadow) → Mirrors mirrored.session.pool cache shadow

/-- Whatever differs between two pools was written into a block with a single holder. -/
def WritesAlone (before after : PagedCachePool V) : Prop :=
  ∀ layer slot, after.kv layer slot ≠ before.kv layer slot →
    after.allocator.refCount (slot / before.blockSize) = 1

theorem WritesAlone.of_kv {before after : PagedCachePool V} (same : after.kv = before.kv) : WritesAlone before after :=
  fun _ _ changed => absurd (by rw [same]) changed

/-- The call raises nothing, leaves every sequence to itself and writes into no shared block. -/
def Isolates (mirrored : Mirrored V) (poolCall : PoolCall V) : Prop :=
  ∃ next, mirrored.call poolCall = .ok next ∧ Isolated next ∧ WritesAlone mirrored.session.pool next.session.pool

theorem refCount_of_sole {alloc : BlockAllocator} {table : List Nat} {block : Nat}
    (bal : Balanced alloc (↑table + rest)) (nodup : table.Nodup) (mem : block ∈ table)
    (sole : block ∉ rest) : alloc.refCount block = 1 := by
  rw [BlockAllocator.refCount, bal.refs, Multiset.count_add, Multiset.count_eq_zero.mpr sole,
    Multiset.coe_count, count_eq_one_of_mem nodup mem]

theorem Confined.writesAlone {before after : PagedCachePool V} {Touched : Nat → Prop} {table : List Nat}
    (confined : Confined before after Touched) (bal : Balanced after.allocator (↑table + rest))
    (nodup : table.Nodup) (owned : ∀ block, Touched block → block ∈ table ∧ block ∉ rest) :
    WritesAlone before after := by
  intro layer slot changed
  by_contra shared
  refine changed (confined layer slot fun touched => shared ?_)
  exact refCount_of_sole bal nodup (owned _ touched).1 (owned _ touched).2

namespace Isolated

theorem new {numBlocks size : Nat} (numHiddenLayers : Nat) (zero : V) (pos : 0 < size) :
    Isolated (Mirrored.new numBlocks size numHiddenLayers zero) where
  positive := pos
  balanced := Balanced.new numBlocks
  length := rfl
  addressed _ mem := by cases mem
  mirrors sequence _ _ placed := by simp [Mirrored.new, PoolSession.new] at placed

variable {mirrored : Mirrored V} {sequence : Nat} {cache : PagedKVCache}

/-- Everybody but `sequence`. -/
def others (mirrored : Mirrored V) (sequence : Nat) : Multiset Nat :=
  heldBy PagedKVCache.blockTable (mirrored.session.sequences.eraseIdx sequence)

theorem balanced_apart (isolated : Isolated mirrored)
    (placed : mirrored.session.sequences[sequence]? = some cache) :
    Balanced mirrored.session.pool.allocator (↑cache.blockTable + others mirrored sequence) := by
  rw [others, ← heldBy_of_getElem? placed]
  exact isolated.balanced

theorem mirrors_of_keeps (isolated : Isolated mirrored) {shadow : DynamicCache V} {held : Multiset Nat}
    (mirrors : Mirrors mirrored.session.pool cache shadow) (shape : SameShape mirrored.session.pool pool)
    (keeps : Keeps mirrored.session.pool pool held) (members : ∀ block ∈ cache.blockTable, block ∈ held) :
    Mirrors pool cache shadow where
  wellFormed := by
    rw [shape.blockSize]
    exact mirrors.wellFormed
  single := mirrors.single
  rows layer inModel := by
    rw [shape.numHiddenLayers] at inModel
    rw [← mirrors.rows layer inModel]
    exact keeps.tableRows isolated.positive shape.blockSize members (mirrors.wellFormed.numTokens_le isolated.positive)

theorem mirrors_of_passing {shadow : DynamicCache V} {after : Paged V} (mirrors : Mirrors pool cache shadow)
    (chunk : Chunk V) (passing : Passing rest (pool, cache) after chunk.n pool.numHiddenLayers chunk.rows) :
    Mirrors after.1 after.2 (contiguousPass chunk shadow pool.numHiddenLayers).2 := by
  obtain ⟨-, single, contents⟩ := contiguousPass_spec mirrors.single chunk pool.numHiddenLayers
  refine ⟨?_, single, ?_⟩
  · rw [passing.shape.blockSize]
    exact passing.wellFormed
  · intro layer inModel
    rw [passing.shape.numHiddenLayers] at inModel
    rw [contents layer, if_pos inModel, ← mirrors.rows layer inModel]
    exact passing.visited layer inModel inModel

section

variable (isolated : Isolated mirrored)
include isolated

theorem replace (placed : mirrored.session.sequences[sequence]? = some cache)
    {next : PagedKVCache} {shadow : Option (DynamicCache V)} (shape : SameShape mirrored.session.pool pool)
    (bal : Balanced pool.allocator (↑next.blockTable + others mirrored sequence))
    (addressed : Addressed mirrored.session.pool.blockSize next)
    (keeps : Keeps mirrored.session.pool pool (others mirrored sequence))
    (mirrors : ∀ live, shadow = some live → Mirrors pool next live) :
    Isolated { session := { pool, sequences := mirrored.session.sequences.set sequence next }
               shadows := mirrored.shadows.set sequence shadow } where
  positive := by
    rw [shape.blockSize]
    exact isolated.positive
  balanced := by
    obtain ⟨inList, -⟩ := List.getElem?_eq_some_iff.mp placed
    rw [heldBy_set inList]
    exact bal
  length := by simp [isolated.length]
  addressed other mem := by
    rw [shape.blockSize]
    rcases mem_or_eq_of_mem_set mem with mem | rfl
    · exact isolated.addressed other mem
    · exact addressed
  mirrors index other live otherPlaced otherShadow := by
    by_cases same : sequence = index
    · subst same
      rw [getElem?_set_self'] at otherPlaced otherShadow
      simp only [placed, Option.map_eq_map, Option.map_some, Option.some.injEq] at otherPlaced
      subst otherPlaced
      cases stored : mirrored.shadows[sequence]? with
      | none => simp [stored] at otherShadow
      | some => grind
    · simp only [getElem?_set_ne same] at otherPlaced otherShadow
      refine isolated.mirrors_of_keeps (isolated.mirrors index other live otherPlaced otherShadow) shape keeps ?_
      intro block mem
      refine mem_heldBy.mpr ⟨other, ?_, mem⟩
      exact mem_eraseIdx_iff_getElem?.mpr ⟨index, fun eq => same eq.symm, otherPlaced⟩

theorem push {next : PagedKVCache} {shadow : Option (DynamicCache V)}
    (shape : SameShape mirrored.session.pool pool)
    (bal : Balanced pool.allocator (↑next.blockTable + heldBy PagedKVCache.blockTable mirrored.session.sequences))
    (addressed : Addressed mirrored.session.pool.blockSize next) (kv : pool.kv = mirrored.session.pool.kv)
    (mirrors : ∀ live, shadow = some live → Mirrors pool next live) :
    Isolated { session := { pool, sequences := mirrored.session.sequences ++ [next] }
               shadows := mirrored.shadows ++ [shadow] } where
  positive := by
    rw [shape.blockSize]
    exact isolated.positive
  balanced := by
    simp only [heldBy_append, heldBy_cons, heldBy_nil, add_zero]
    rw [add_comm]
    exact bal
  length := by simp [isolated.length]
  addressed other mem := by
    rw [shape.blockSize]
    rcases mem_append.mp mem with mem | member
    · exact isolated.addressed other mem
    · grind
  mirrors index other live otherPlaced otherShadow := by
    rw [getElem?_append] at otherPlaced otherShadow
    rw [isolated.length] at otherShadow
    by_cases old : index < mirrored.session.sequences.length
    · rw [if_pos old] at otherPlaced otherShadow
      have keeps : Keeps mirrored.session.pool pool ↑other.blockTable := fun _ _ _ => by rw [kv]
      exact isolated.mirrors_of_keeps (isolated.mirrors index other live otherPlaced otherShadow) shape keeps
        fun block mem => mem
    · rw [if_neg old] at otherPlaced otherShadow
      have last : index - mirrored.session.sequences.length = 0 := by
        by_contra beyond
        rw [getElem?_eq_none (by simp; omega)] at otherPlaced
        cases otherPlaced
      simp only [last, getElem?_cons_zero, Option.some.injEq] at otherPlaced otherShadow
      subst otherPlaced
      exact mirrors live otherShadow

theorem exists_shadow (placed : mirrored.session.sequences[sequence]? = some cache)
    (live : mirrored.shadows[sequence]? ≠ some none) :
    ∃ shadow, mirrored.shadows[sequence]? = some (some shadow) := by
  obtain ⟨inList, -⟩ := List.getElem?_eq_some_iff.mp placed
  rw [← isolated.length] at inList
  rw [getElem?_eq_getElem inList] at live ⊢
  cases stored : mirrored.shadows[sequence] with
  | none => exact absurd (congrArg some stored) live
  | some shadow => exact ⟨shadow, rfl⟩

theorem allocate : Isolates mirrored .allocate := by
  simp only [Isolates, Mirrored.call, PoolSession.call, PagedCachePool.allocate]
  by_cases exhausted : mirrored.session.pool.allocator.numFree = 0
  · simp only [if_pos exhausted]
    exact ⟨_, rfl, isolated, .of_kv rfl⟩
  · simp only [if_neg exhausted]
    refine ⟨_, rfl, isolated.push (.refl _) ?_ ⟨nodup_nil, rfl⟩ rfl ?_, .of_kv rfl⟩
    · simpa using isolated.balanced
    · intro live fresh
      cases fresh
      exact ⟨.empty isolated.positive, .empty, fun layer _ => by simp [rowsOf, tableRows, appended]⟩

theorem update (chunk : Chunk V) (permitted : mirrored.Permitted (.update sequence chunk)) :
    Isolates mirrored (.update sequence chunk) := by
  simp only [Isolates, Mirrored.call, PoolSession.call]
  cases placed : mirrored.session.sequences[sequence]? with
  | none => exact ⟨_, rfl, isolated, .of_kv rfl⟩
  | some cache =>
    obtain ⟨shadow, stored⟩ := isolated.exists_shadow placed permitted
    have mirrors := isolated.mirrors sequence cache shadow placed stored
    have passed := @pass_spec V (mirrored.session.pool, cache) _ chunk isolated.positive
      (isolated.balanced_apart placed) mirrors.wellFormed _ (Nat.le_refl mirrored.session.pool.numHiddenLayers)
    have shadowed : mirrored.shadows.getD sequence none = some shadow := by
      rw [getD_eq_getElem?_getD, stored]
      rfl
    unfold Ends at passed
    split at passed
    case h_1 result returned =>
      obtain ⟨_, _, next⟩ := result
      simp only [returned, Mirrored.mirror, shadowed, Option.map_some]
      obtain ⟨-, passing⟩ := passed
      by_cases layerless : mirrored.session.pool.numHiddenLayers = 0
      · rw [if_pos layerless] at passing
        cases passing
        refine ⟨_, rfl, isolated.replace placed (.refl _) (isolated.balanced_apart placed)
          mirrors.wellFormed.toAddressed (.refl _ _) ?_, .of_kv rfl⟩
        intro live same
        rw [layerless] at same
        cases same
        exact mirrors
      · rw [if_neg layerless] at passing
        refine ⟨_, rfl, isolated.replace placed passing.shape passing.balanced passing.wellFormed.toAddressed
          passing.keeps ?_, passing.confined.writesAlone passing.balanced passing.wellFormed.nodup
            fun block touched => ⟨mem_of_mem_drop touched, passing.exclusive block touched⟩⟩
        intro live same
        cases same
        exact mirrors_of_passing mirrors chunk passing
    case h_2 _ raised =>
      simp only [raised, Mirrored.mirror]
      obtain ⟨passed, -⟩ := passed
      refine ⟨_, rfl, isolated.replace placed passed.shape passed.balanced passed.addressed
        (passed.confined.keeps fun block touched => touched.2) ?_,
        passed.confined.writesAlone passed.balanced passed.addressed.nodup fun block touched => touched⟩
      exact fun live absent => by cases absent
    case h_3 => exact passed.elim

theorem fork (permitted : mirrored.Permitted (.fork sequence)) : Isolates mirrored (.fork sequence) := by
  simp only [Isolates, Mirrored.call, PoolSession.call]
  cases placed : mirrored.session.sequences[sequence]? with
  | none => exact ⟨_, rfl, isolated, .of_kv rfl⟩
  | some cache =>
    obtain ⟨shadow, stored⟩ := isolated.exists_shadow placed permitted
    have mirrors := isolated.mirrors sequence cache shadow placed stored
    have apart := isolated.balanced_apart placed
    obtain ⟨_, forked, bal, sameBlocks⟩ := fork_spec apart
    simp only [forked, Mirrored.mirror]
    refine ⟨_, rfl, isolated.push ⟨rfl, rfl, sameBlocks⟩ ?_ ⟨mirrors.wellFormed.nodup, mirrors.wellFormed.slots⟩
      rfl ?_, .of_kv rfl⟩
    · rw [heldBy_of_getElem? placed]
      exact bal
    · intro live same
      rw [getD_eq_getElem?_getD, stored] at same
      cases same
      exact ⟨⟨⟨mirrors.wellFormed.nodup, mirrors.wellFormed.slots⟩, mirrors.wellFormed.covers⟩, mirrors.single,
        mirrors.rows⟩

theorem free (sequence : Nat) : Isolates mirrored (.free sequence) := by
  simp only [Isolates, Mirrored.call, PoolSession.call]
  cases placed : mirrored.session.sequences[sequence]? with
  | none => exact ⟨_, rfl, isolated, .of_kv rfl⟩
  | some =>
    obtain ⟨_, freed, bal, sameBlocks, -⟩ := free_spec (isolated.balanced_apart placed)
    simp only [freed, Mirrored.mirror]
    refine ⟨_, rfl, isolated.replace placed ⟨rfl, rfl, sameBlocks⟩ (by simpa using bal) ⟨nodup_nil, rfl⟩
      (fun _ _ _ => rfl) ?_, .of_kv rfl⟩
    intro live fresh
    cases fresh
    refine ⟨⟨⟨nodup_nil, rfl⟩, (ceilDiv_zero isolated.positive).symm⟩, .empty, ?_⟩
    exact fun layer _ => by simp [rowsOf, tableRows, appended]

theorem call (poolCall : PoolCall V) (permitted : mirrored.Permitted poolCall) : Isolates mirrored poolCall := by
  cases poolCall with
  | allocate => exact isolated.allocate
  | update _ chunk => exact isolated.update chunk permitted
  | fork => exact isolated.fork permitted
  | free sequence => exact isolated.free sequence

end

end Isolated

/-- In this state every live sequence answers the next pass as its contiguous cache does. -/
structure Contiguous (mirrored : Mirrored V) : Prop where
  rows : ∀ (sequence : Nat) cache shadow, mirrored.session.sequences[sequence]? = some cache →
    mirrored.shadows[sequence]? = some (some shadow) → ∀ (chunk : Chunk V) returned pool next,
    pass chunk (mirrored.session.pool, cache) mirrored.session.pool.numHiddenLayers =
      .ok (returned, pool, next) →
    returned = (contiguousPass chunk shadow mirrored.session.pool.numHiddenLayers).1 ∧
      returned = (range mirrored.session.pool.numHiddenLayers).map
        (fun layer => appended shadow layer ++ chunk.rows layer) ∧
      ∀ layer, layer < mirrored.session.pool.numHiddenLayers → ∀ slot ∈ next.writeSlots chunk.n,
        pool.allocator.refCount (slot / pool.blockSize) = 1
  alone : ∀ poolCall next, mirrored.Permitted poolCall → mirrored.call poolCall = .ok next →
    WritesAlone mirrored.session.pool next.session.pool

theorem Isolated.contiguous {mirrored : Mirrored V} (isolated : Isolated mirrored) : Contiguous mirrored where
  rows sequence cache shadow placed stored chunk returned pool next passedEq := by
    have mirrors := isolated.mirrors sequence cache shadow placed stored
    have passed := @pass_spec V (mirrored.session.pool, cache) _ chunk isolated.positive
      (isolated.balanced_apart placed) mirrors.wellFormed _ (Nat.le_refl mirrored.session.pool.numHiddenLayers)
    rw [passedEq] at passed
    obtain ⟨rowsEq, passing⟩ := passed
    simp only at rowsEq
    have layers : returned = (range mirrored.session.pool.numHiddenLayers).map
        (fun layer => appended shadow layer ++ chunk.rows layer) := by
      rw [rowsEq]
      apply map_congr_left
      intro layer mem
      rw [mirrors.rows layer (mem_range.mp mem)]
    refine ⟨layers.trans (contiguousPass_spec mirrors.single chunk _).1.symm, layers, ?_⟩
    intro layer inModel slot mem
    rw [if_neg (by omega)] at passing
    have size := passing.shape.blockSize
    have covered := passing.wellFormed.numTokens_le isolated.positive
    have inBlocks := div_writeSlots isolated.positive passing.wellFormed.toAddressed
      (by rw [passing.start, ← passing.numTokens]; exact covered) mem
    rw [passing.start] at inBlocks
    rw [size]
    exact refCount_of_sole passing.balanced passing.wellFormed.nodup (mem_of_mem_drop inBlocks)
      (passing.exclusive _ inBlocks)
  alone poolCall next permitted called := by
    obtain ⟨_, calledEq, -, writesAlone⟩ := isolated.call poolCall permitted
    rw [called] at calledEq
    cases calledEq
    exact writesAlone

/-- In every run in which a sequence that ran out of blocks is only ever freed, no call raises,
every sequence answers as a contiguous cache of its own, and no write lands in a shared block. -/
theorem paged_sequences_isolated {numBlocks blockSize numHiddenLayers : Nat} {zero : V} (positive : 0 < blockSize)
    (calls : List (PoolCall V))
    (permitted : Along Mirrored.call Mirrored.Permitted (.new numBlocks blockSize numHiddenLayers zero) calls) :
    ∃ last, run Mirrored.call (.new numBlocks blockSize numHiddenLayers zero) calls = .ok last ∧
      Contiguous last := by
  obtain ⟨last, ran, isolated⟩ := run_total_along
    (fun mirrored poolCall held allowed =>
      (held.call poolCall allowed).imp fun _ reached => ⟨reached.1, reached.2.1⟩)
    (Isolated.new numHiddenLayers zero positive) permitted
  exact ⟨last, ran, isolated.contiguous⟩

/-- A fork that diverges from its parent, a parent that runs out of blocks and is freed. -/
theorem paged_sequences_isolated_forked :
    Along Mirrored.call Mirrored.Permitted (.new 3 2 2 0)
        [.allocate, .update 0 ⟨3, fun _ => [1, 2, 3], fun _ => rfl⟩, .fork 0,
          .update 1 ⟨1, fun _ => [4], fun _ => rfl⟩, .update 0 ⟨2, fun _ => [5, 6], fun _ => rfl⟩, .free 0,
          .update 1 ⟨2, fun _ => [7, 8], fun _ => rfl⟩] ∧
      ∃ last, run Mirrored.call (.new 3 2 2 0)
        [.allocate, .update 0 ⟨3, fun _ => [1, 2, 3], fun _ => rfl⟩, .fork 0,
          .update 1 ⟨1, fun _ => [4], fun _ => rfl⟩, .update 0 ⟨2, fun _ => [5, 6], fun _ => rfl⟩, .free 0,
          .update 1 ⟨2, fun _ => [7, 8], fun _ => rfl⟩] = .ok last ∧ Contiguous last :=
  ⟨by decide, paged_sequences_isolated (by decide) _ (by decide)⟩

end Nanoserve.Verified
