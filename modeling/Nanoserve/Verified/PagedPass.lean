import Nanoserve.Verified.PagedCache

/-! # A forward pass over one paged sequence

A pass updates the layers in order, and only layer 0 moves the sequence.
-/

namespace Nanoserve.Verified

open Engine Lib List
open PagedKVCache (Paged)

variable {V : Type}

/-- The rows of one layer of a sequence at rest. -/
def rowsOf (state : Paged V) (layer : Nat) : List V :=
  tableRows state.1 state.2.blockTable state.2.numTokens layer

theorem Keeps.tableRows {before after : PagedCachePool V} {held : Multiset Nat} (keeps : Keeps before after held)
    (pos : 0 < before.blockSize) (sameSize : after.blockSize = before.blockSize) {table : List Nat}
    (members : ∀ block ∈ table, block ∈ held) {count layer : Nat} (fits : count ≤ table.length * before.blockSize) :
    tableRows after table count layer = tableRows before table count layer := by
  simp only [Verified.tableRows, sameSize]
  apply map_congr_left
  intro position mem
  rw [mem_range] at mem
  apply keeps
  rw [div_address pos]
  exact members _ (getD_mem ((Nat.div_lt_iff_lt_mul pos).mpr (by omega)))

theorem Grown.tableRows {rest : Multiset Nat} {before after : Paged V} {n : Nat} (grown : Grown rest before after n)
    {layer : Nat} (inModel : layer < before.1.numHiddenLayers) :
    tableRows after.1 after.2.blockTable before.2.numTokens layer = rowsOf before layer := by
  simp only [rowsOf, Verified.tableRows, grown.shape.blockSize]
  apply map_congr_left
  intro position mem
  exact grown.rows layer position inModel (mem_range.mp mem)

/-- `count` tokens into a pass that started from `before`, with the layers below `done` updated by
the rows of `new`. -/
structure Passing (rest : Multiset Nat) (before after : Paged V) (count done : Nat) (new : Nat → List V) :
    Prop where
  balanced : Balanced after.1.allocator (↑after.2.blockTable + rest)
  wellFormed : WellFormed before.1.blockSize after.2
  start : after.2.start = before.2.numTokens
  numTokens : after.2.numTokens = before.2.numTokens + count
  shape : SameShape before.1 after.1
  front : after.2.blockTable.take (before.2.numTokens / before.1.blockSize) =
    before.2.blockTable.take (before.2.numTokens / before.1.blockSize)
  confined : Confined before.1 after.1 (· ∈ after.2.blockTable.drop (before.2.numTokens / before.1.blockSize))
  exclusive : ∀ block ∈ after.2.blockTable.drop (before.2.numTokens / before.1.blockSize), block ∉ rest
  numFree : after.1.allocator.numFree + growNeed before.1 before.2 count = before.1.allocator.numFree
  visited : ∀ layer, layer < done → layer < before.1.numHiddenLayers →
    rowsOf after layer = rowsOf before layer ++ new layer
  pending : ∀ layer, done ≤ layer → layer < before.1.numHiddenLayers →
    tableRows after.1 after.2.blockTable before.2.numTokens layer = rowsOf before layer

namespace Passing

variable {rest : Multiset Nat} {before after : Paged V} {count done : Nat} {new : Nat → List V}

theorem keeps (passing : Passing rest before after count done new) : Keeps before.1 after.1 rest :=
  passing.confined.keeps passing.exclusive

theorem of_grown {cache : PagedKVCache} {pool : PagedCachePool V}
    (grown : Grown rest (pool, { cache with start := cache.numTokens }) after count) :
    Passing rest (pool, cache) after count 0 new where
  balanced := grown.balanced
  wellFormed := grown.wellFormed
  start := grown.start
  numTokens := grown.numTokens
  shape := grown.shape
  front := grown.front
  confined := grown.confined
  exclusive := grown.exclusive
  numFree := grown.numFree
  visited _ below := absurd below (Nat.not_lt_zero _)
  pending _ _ inModel := grown.tableRows inModel

theorem write (pos : 0 < before.1.blockSize) (passing : Passing rest before after count done new)
    (inModel : done < before.1.numHiddenLayers) (length : (new done).length = count) :
    let written := PagedKVCache.writeLayer after.1 after.2 done (new done)
    written.1 = rowsOf before done ++ new done ∧
      Passing rest before (written.2, after.2) count (done + 1) new := by
  intro written
  have sizeEq := passing.shape.blockSize
  have fits : after.2.start + (new done).length ≤ after.2.blockTable.length * after.1.blockSize := by
    have covered := passing.wellFormed.numTokens_le pos
    rw [passing.start, length, ← passing.numTokens, sizeEq]
    exact covered
  have spec : Written after.1 after.2 done (new done) written.1 written.2 :=
    writeLayer_spec (by rw [sizeEq]; exact pos) (by rw [sizeEq]; exact passing.wellFormed.toAddressed) fits
  have returned : written.1 = rowsOf before done ++ new done := by
    rw [spec.returned, passing.start, passing.pending done (Nat.le_refl _) inModel]
  -- A layer other than `done` reads the same rows from the new pool.
  have elsewhere : ∀ layer tokens, layer ≠ done →
      tableRows written.2 after.2.blockTable tokens layer = tableRows after.1 after.2.blockTable tokens layer := by
    intro layer tokens differs
    simp only [tableRows, spec.otherLayers layer differs, spec.shape.blockSize]
  refine ⟨returned, ?_, passing.wellFormed, passing.start, passing.numTokens, passing.shape.trans spec.shape,
    passing.front, ?_, passing.exclusive, ?_, ?_, ?_⟩
  · rw [spec.allocator]
    exact passing.balanced
  · intro layer slot outside
    rw [spec.confined layer slot, passing.confined layer slot outside]
    rw [passing.start, sizeEq]
    exact outside
  · rw [spec.allocator]
    exact passing.numFree
  · intro layer below layerIn
    by_cases same : layer = done
    · subst same
      have stored := spec.stored
      rw [passing.start, length, ← passing.numTokens] at stored
      exact stored.trans returned
    · simp only [rowsOf, elsewhere layer _ same]
      exact passing.visited layer (by omega) layerIn
  · intro layer above layerIn
    rw [elsewhere layer _ (by omega)]
    exact passing.pending layer (by omega) layerIn

theorem update (pos : 0 < before.1.blockSize) (passing : Passing rest before after count done new)
    (later : done ≠ 0) (inModel : done < before.1.numHiddenLayers) (length : (new done).length = count) :
    ∃ next, PagedKVCache.update done (new done) after = .ok (rowsOf before done ++ new done, next) ∧
      Passing rest before next count (done + 1) new := by
  obtain ⟨returned, continued⟩ := passing.write pos inModel length
  refine ⟨_, ?_, continued⟩
  simp only [PagedKVCache.update, if_neg later, returned]

end Passing

theorem update_zero_spec {pool : PagedCachePool V} {cache : PagedKVCache} {rest : Multiset Nat} (new : Nat → List V)
    (pos : 0 < pool.blockSize) (layered : 0 < pool.numHiddenLayers)
    (bal : Balanced pool.allocator (↑cache.blockTable + rest)) (formed : WellFormed pool.blockSize cache) :
    Ends (PagedKVCache.update 0 (new 0) (pool, cache))
      (fun result => result.1 = rowsOf (pool, cache) 0 ++ new 0 ∧
        Passing rest (pool, cache) result.2 (new 0).length 1 new)
      (fun left => Halted rest (pool, cache) left ∧ pool.allocator.numFree < growNeed pool cache (new 0).length) := by
  have started : WellFormed pool.blockSize { cache with start := cache.numTokens } :=
    ⟨⟨formed.nodup, formed.slots⟩, formed.covers⟩
  have grown := @grow_spec V pool { cache with start := cache.numTokens } rest (new 0).length pos bal started
  unfold Ends at grown
  split at grown
  case h_1 _ returned =>
    obtain ⟨rows, passing⟩ := (Passing.of_grown grown).write pos layered rfl
    simp only [PagedKVCache.update, if_pos, returned]
    exact ⟨rows, passing⟩
  case h_2 left raised =>
    simp only [PagedKVCache.update, if_pos, raised]
    exact ⟨⟨grown.1.balanced, grown.1.addressed, grown.1.shape, grown.1.confined⟩, grown.2⟩
  case h_3 => exact grown.elim

end Nanoserve.Verified
