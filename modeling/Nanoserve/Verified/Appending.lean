import Nanoserve.Engine.BlockManager

/-! # Failed appends

`update` takes the blocks of a chunk one at a time and raises when there is no more.
-/

namespace Nanoserve.Verified

open Lib Engine PagedKVCache List

variable {V : Type}
variable {pool : PagedCachePool V} {cache : PagedKVCache} {left : Paged V}

/-- The sequence and the allocator's books are as they were. -/
structure Untouched (before after : Paged V) : Prop where
  blockTable : after.2.blockTable = before.2.blockTable
  numTokens : after.2.numTokens = before.2.numTokens
  slots : after.2.slots = before.2.slots
  refs : ∀ block, after.1.allocator.refCount block = before.1.allocator.refCount block
  free : ∀ block, block ∈ after.1.allocator.free ↔ block ∈ before.1.allocator.free

theorem allocate_eq_none {alloc : BlockAllocator} : alloc.allocate = none ↔ alloc.free = [] := by
  rw [BlockAllocator.allocate]
  cases alloc.free with
  | nil => simp
  | cons => simp

theorem appendBlocks_raised {count : Nat} (raised : appendBlocks pool cache count = .error (.outOfBlocks left)) :
    pool.allocator.free = [] ∧ left = (pool, cache) ∨
      pool.allocator.free ≠ [] ∧ cache.blockTable.length < left.2.blockTable.length := by
  induction count generalizing pool cache with
  | zero => cases raised
  | succ _ ih =>
    rw [appendBlocks] at raised
    cases allocated : pool.allocator.allocate with
    | none =>
      rw [allocated] at raised
      cases raised
      exact .inl ⟨allocate_eq_none.mp allocated, rfl⟩
    | some taken =>
      rw [allocated] at raised
      have some : pool.allocator.free ≠ [] := fun none => by
        rw [allocate_eq_none.mpr none] at allocated
        cases allocated
      have longer : (cache.appendBlock pool.blockSize taken.1).blockTable.length = cache.blockTable.length + 1 :=
        length_append
      refine .inr ⟨some, ?_⟩
      cases ih raised with
      | inl exhausted =>
        rw [exhausted.2]
        exact longer ▸ Nat.lt_succ_self _
      | inr => omega

theorem unshareTail_cases (pool : PagedCachePool V) (cache : PagedKVCache) :
    (pool.allocator.free = [] ∧ unshareTail pool cache = .error (.outOfBlocks (pool, cache))) ∨
      unshareTail pool cache = .ok (pool, cache) ∨ (∃ error, unshareTail pool cache = .error (.runtimeError error)) ∨
      ∃ front tail fresh copied, cache.blockTable = front ++ [tail] ∧ pool.allocator.free.head? = some fresh ∧
        unshareTail pool cache = .ok copied ∧ copied.2.blockTable = front ++ [fresh] ∧
        (fresh = tail → copied.1.allocator.free ≠ []) := by
  rw [unshareTail]
  cases last : cache.blockTable.getLast? with
  | none => exact .inr (.inl rfl)
  | some tail =>
    have split : cache.blockTable = cache.blockTable.dropLast ++ [tail] :=
      (dropLast_append_getLast? tail last).symm
    by_cases alone : pool.allocator.refCount tail ≤ 1
    · simp only [if_pos alone]
      exact .inr (.inl trivial)
    · simp only [if_neg alone]
      rw [BlockAllocator.allocate]
      cases free : pool.allocator.free with
      | nil => exact .inl ⟨rfl, rfl⟩
      | cons fresh rest =>
        simp only [PagedCachePool.copyBlock]
        right; right
        cases released : BlockAllocator.decref { pool.allocator with
            free := rest, refs := Function.update pool.allocator.refs fresh 1 } tail with
        | error error => exact .inl ⟨error, rfl⟩
        | ok =>
          refine .inr ⟨_, tail, fresh, _, split, rfl, rfl, rfl, ?_⟩
          -- A tail that was free itself has just been given back.
          rintro rfl
          simp only [BlockAllocator.decref, Function.update_self] at released
          cases released
          exact cons_ne_nil _ _

theorem capacity_raised {n : Nat}
    (raised : (match ensureCapacity pool cache n with
      | .error raised => .error raised
      | .ok (pool, cache) => .ok (pool, { cache with numTokens := cache.numTokens + n })) =
        (.error (.outOfBlocks left) : Except (Raised (Paged V)) (Paged V))) :
    pool.allocator.free = [] ∧ left = (pool, cache) ∨
      pool.allocator.free ≠ [] ∧ cache.blockTable.length < left.2.blockTable.length := by
  cases ensured : ensureCapacity pool cache n with
  | error =>
    rw [ensured] at raised
    cases raised
    exact appendBlocks_raised ensured
  | ok =>
    rw [ensured] at raised
    cases raised

theorem grow_raised {n : Nat} (raised : grow pool cache n = .error (.outOfBlocks left)) :
    pool.allocator.free = [] ∧ left = (pool, cache) ∨
      pool.allocator.free ≠ [] ∧ left.2.blockTable ≠ cache.blockTable := by
  have appended (raised : pool.allocator.free = [] ∧ left = (pool, cache) ∨
      pool.allocator.free ≠ [] ∧ cache.blockTable.length < left.2.blockTable.length) :
      pool.allocator.free = [] ∧ left = (pool, cache) ∨
        pool.allocator.free ≠ [] ∧ left.2.blockTable ≠ cache.blockTable :=
    raised.imp_right fun longer => ⟨longer.1, fun same => Nat.ne_of_gt longer.2 (congrArg List.length same)⟩
  rw [grow] at raised
  by_cases partly : cache.numTokens % pool.blockSize ≠ 0
  · simp only [if_pos partly] at raised
    rcases unshareTail_cases pool cache with ⟨none, failed⟩ | same | ⟨_, failed⟩ |
      ⟨front, tail, fresh, copied, split, first, unshared, table, returned⟩
    · rw [failed] at raised
      cases raised
      exact .inl ⟨none, rfl⟩
    · rw [same] at raised
      exact appended (capacity_raised raised)
    · rw [failed] at raised
      cases raised
    · rw [unshared] at raised
      refine .inr ⟨fun none => by simp [none] at first, ?_⟩
      cases capacity_raised raised with
      | inl exhausted =>
        -- Nothing was appended, so the copy is what is different.
        rw [exhausted.2, split]
        intro same
        have same : front ++ [fresh] = front ++ [tail] := table.symm.trans same
        exact returned (singleton_inj.mp (append_cancel_left same)) exhausted.1
      | inr longer =>
        intro same
        have length := longer.2
        rw [table, same, split, length_append, length_append] at length
        exact Nat.lt_irrefl _ length
  · simp only [if_neg partly] at raised
    exact appended (capacity_raised raised)

/-- An `update` that raises `OutOfBlocks` leaves the sequence and the allocator as they were exactly
if the pool had no free block when it was called. -/
theorem failed_append_untouched_iff (layerIdx : Nat) (k : List V) (before left : Paged V)
    (raised : update layerIdx k before = .error (.outOfBlocks left)) :
    Untouched before left ↔ before.1.allocator.free = [] := by
  have grown : grow before.1 { before.2 with start := before.2.numTokens } k.length = .error (.outOfBlocks left) := by
    rw [update] at raised
    by_cases first : layerIdx = 0
    · simp only [if_pos first] at raised
      cases advanced : grow before.1 { before.2 with start := before.2.numTokens } k.length with
      | error => grind
      | ok => grind
    · grind
  cases grow_raised grown with
  | inl exhausted =>
    obtain ⟨none, rfl⟩ := exhausted
    exact iff_of_true ⟨rfl, rfl, rfl, fun _ => rfl, fun _ => Iff.rfl⟩ none
  | inr changed => exact iff_of_false (fun untouched => changed.2 untouched.blockTable) changed.1

/-- What a call that runs out of blocks leaves behind. -/
def leftBehind {α : Type} : Except (Raised (Paged V)) α → Option (Paged V)
  | .error (.outOfBlocks left) => some left
  | .error (.runtimeError _) | .ok _ => none

/-- One block of one token, which another sequence holds. -/
def occupied : PagedCachePool Nat :=
  { PagedCachePool.new 1 1 1 0 with allocator := { numBlocks := 1, free := [], refs := fun _ => 1 } }

theorem failed_append_untouched_iff_occupied :
    ∃ left, update 0 [5] (occupied, {}) = .error (.outOfBlocks left) ∧ Untouched (occupied, {}) left := by
  refine ⟨(occupied, {}), rfl, ?_⟩
  exact (failed_append_untouched_iff 0 [5] (occupied, {}) _ rfl).mpr rfl

/-- Two blocks of one token and a chunk of three. -/
theorem failed_append_takes_blocks :
    ((leftBehind (update 0 [5, 6, 7] (PagedCachePool.new 2 1 1 0, {}))).map fun left =>
        (left.2.blockTable, left.2.numTokens, left.1.allocator.free)) = some ([0, 1], 0, []) ∧
      (do
        let left ← leftBehind (update 0 [5, 6, 7] (PagedCachePool.new 2 1 1 0, {}))
        let (pool, child) ← (fork left.1 left.2).toOption
        let (_, pool, parent) ← (update 0 [8] (pool, left.2)).toOption
        let (_, pool, _) ← (update 0 [9] (pool, child)).toOption
        some (pool.gather 0 (parent.slots.take parent.numTokens))) = some [9] := by
  decide +kernel

end Nanoserve.Verified
