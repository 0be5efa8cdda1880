import Nanoserve.Engine.BlockManager
import Mathlib.Data.Multiset.Count
import Mathlib.Data.Multiset.AddSub
import Mathlib.Data.Finset.Card
import Mathlib.Algebra.Order.Group.Multiset
import Mathlib.Algebra.BigOperators.Group.List.Basic

/-! # Exact reference counts

`Balanced allocator held` says that the allocator's books are right when `held` is the multiset of
all references in existence.
-/

namespace Nanoserve.Verified

open Engine List Function

theorem coe_concat_add (front : List Nat) (block : Nat) (rest : Multiset Nat) :
    (↑(front ++ [block]) + rest : Multiset Nat) = block ::ₘ (↑front + rest) := by
  rw [← Multiset.coe_add, Multiset.coe_singleton, add_assoc, Multiset.singleton_add, Multiset.add_cons]

structure Balanced (allocator : BlockAllocator) (held : Multiset Nat) : Prop where
  refs : ∀ block, allocator.refs block = held.count block
  free : ∀ block, block ∈ allocator.free ↔ block < allocator.numBlocks ∧ block ∉ held
  nodup : allocator.free.Nodup
  bound : ∀ block ∈ held, block < allocator.numBlocks

namespace Balanced

variable {alloc next : BlockAllocator} {held : Multiset Nat} {block : Nat}

theorem numFree_le (bal : Balanced alloc held) : alloc.numFree ≤ alloc.numBlocks := by
  have known : alloc.free ⊆ range alloc.numBlocks :=
    fun block member => mem_range.mpr ((bal.free block).mp member).1
  have fewer := (bal.nodup.subperm known).length_le
  rwa [length_range] at fewer

theorem new (numBlocks : Nat) : Balanced (.new numBlocks) 0 where
  refs _ := by simp [BlockAllocator.new]
  free _ := by simp [BlockAllocator.new]
  nodup := nodup_range
  bound _ member := by simp at member

theorem exclusive {rest : Multiset Nat} (bal : Balanced alloc (block ::ₘ rest))
    (sole : alloc.refs block ≤ 1) : block ∉ rest := by
  rw [bal.refs, Multiset.count_cons_self] at sole
  rw [← Multiset.count_eq_zero]
  omega

theorem allocate_spec (bal : Balanced alloc held)
    (allocated : alloc.allocate = some (block, next)) :
    Balanced next (block ::ₘ held) ∧ block ∉ held ∧ next.numBlocks = alloc.numBlocks ∧
      next.numFree + 1 = alloc.numFree := by
  unfold BlockAllocator.allocate at allocated
  split at allocated
  case h_1 => cases allocated
  case h_2 top _ freeEq =>
    simp only [Option.some.injEq, Prod.mk.injEq] at allocated
    obtain ⟨rfl, rfl⟩ := allocated
    have topFree := (bal.free top).mp (by grind)
    have freeNodup := bal.nodup
    rw [freeEq, nodup_cons] at freeNodup
    refine ⟨⟨?_, ?_, freeNodup.2, ?_⟩, topFree.2, rfl, by simp [BlockAllocator.numFree, freeEq]⟩
    · intro other
      by_cases same : other = top
      · subst same
        simp [Multiset.count_eq_zero.mpr topFree.2]
      · simp [update_of_ne same, Multiset.count_cons_of_ne same, bal.refs]
    · intro other
      have before := bal.free other
      rw [freeEq, mem_cons] at before
      simp only [Multiset.mem_cons, not_or]
      constructor
      · intro member
        obtain ⟨bound, unheld⟩ := before.mp (.inr member)
        exact ⟨bound, fun same => freeNodup.1 (same ▸ member), unheld⟩
      · rintro ⟨bound, differs, unheld⟩
        exact (before.mpr ⟨bound, unheld⟩).resolve_left differs
    · intro other member
      rcases Multiset.mem_cons.mp member with rfl | member
      · exact topFree.1
      · exact bal.bound other member

theorem allocate_none (exhausted : alloc.allocate = none) : alloc.numFree = 0 := by
  unfold BlockAllocator.allocate at exhausted
  split at exhausted
  case h_1 freeEq => simp [BlockAllocator.numFree, freeEq]
  case h_2 => cases exhausted

theorem incref_spec (bal : Balanced alloc held) (member : block ∈ held) :
    ∃ next, alloc.incref block = .ok next ∧ Balanced next (block ::ₘ held) ∧
      next.numBlocks = alloc.numBlocks ∧ next.free = alloc.free := by
  have pos : alloc.refs block ≠ 0 := by
    rw [bal.refs]
    exact Multiset.count_ne_zero.mpr member
  refine ⟨_, if_neg pos, ⟨?_, ?_, bal.nodup, ?_⟩, rfl, rfl⟩
  · intro other
    by_cases same : other = block
    · subst same
      simp [bal.refs]
    · simp [update_of_ne same, Multiset.count_cons_of_ne same, bal.refs]
  · intro other
    simp only [Multiset.mem_cons, not_or]
    rw [bal.free other]
    constructor
    · grind
    · grind
  · intro other otherMember
    rcases Multiset.mem_cons.mp otherMember with rfl | otherMember
    · exact bal.bound _ member
    · exact bal.bound other otherMember

theorem decref_spec (bal : Balanced alloc (block ::ₘ held)) :
    ∃ freed next, alloc.decref block = .ok (freed, next) ∧ Balanced next held ∧
      next.numBlocks = alloc.numBlocks ∧
      next.numFree = alloc.numFree + (if block ∈ held then 0 else 1) := by
  have count : alloc.refs block = held.count block + 1 := by
    rw [bal.refs, Multiset.count_cons_self]
  have otherRefs : ∀ other, other ≠ block → alloc.refs other = held.count other := by
    intro other differs
    rw [bal.refs, Multiset.count_cons_of_ne differs]
  have heldBound : ∀ other ∈ held, other < alloc.numBlocks :=
    fun other member => bal.bound other (Multiset.mem_cons_of_mem member)
  have blockBound := bal.bound block (Multiset.mem_cons_self _ _)
  have freeIff : ∀ other, other ∈ alloc.free ↔ other < alloc.numBlocks ∧ other ≠ block ∧ other ∉ held := by
    intro other
    rw [bal.free other, Multiset.mem_cons, not_or]
  by_cases last : block ∈ held
  · -- Somebody else still holds the block, so it stays off the free list.
    have several : 0 < held.count block := Multiset.count_pos.mpr last
    have decremented : alloc.decref block = .ok (false,
        { alloc with refs := update alloc.refs block (alloc.refs block - 1) }) := by
      unfold BlockAllocator.decref
      rw [if_neg (by omega), if_neg (by omega)]
    refine ⟨false, _, decremented, ⟨?_, ?_, bal.nodup, heldBound⟩, rfl, by simp [last, BlockAllocator.numFree]⟩
    · grind
    · intro other
      rw [freeIff other]
      constructor
      · grind
      · grind
  · have sole : held.count block = 0 := Multiset.count_eq_zero.mpr last
    have decremented : alloc.decref block = .ok (true,
        { alloc with free := block :: alloc.free, refs := update alloc.refs block 0 }) := by
      unfold BlockAllocator.decref
      rw [if_neg (by omega), if_pos (by omega)]
    refine ⟨true, _, decremented, ⟨?_, ?_, ?_, heldBound⟩, rfl, by simp [last, BlockAllocator.numFree]⟩
    · grind
    · intro other
      simp only [mem_cons]
      rw [freeIff other]
      constructor
      · grind
      · rintro ⟨bound, unheld⟩
        by_cases same : other = block
        · exact .inl same
        · exact .inr ⟨bound, same, unheld⟩
    · refine nodup_cons.mpr ⟨fun member => ?_, bal.nodup⟩
      exact ((freeIff block).mp member).2.1 rfl

/-- A block with a second holder, given up for a fresh one, stays in use. -/
theorem replace_spec {fresh : Nat} (bal : Balanced alloc (block ::ₘ held)) (shared : ¬alloc.refCount block ≤ 1)
    (allocated : alloc.allocate = some (fresh, next)) :
    ∃ freed last, next.decref block = .ok (freed, last) ∧ Balanced last (fresh ::ₘ held) ∧ fresh ∉ block ::ₘ held ∧
      last.numBlocks = alloc.numBlocks ∧ last.numFree + 1 = alloc.numFree := by
  obtain ⟨nextBalanced, unheld, sameBlocks, oneLess⟩ := bal.allocate_spec allocated
  rw [Multiset.cons_swap] at nextBalanced
  obtain ⟨_, _, decremented, lastBalanced, lastBlocks, lastFree⟩ := nextBalanced.decref_spec
  have stays : block ∈ fresh ::ₘ held := by
    rw [BlockAllocator.refCount, bal.refs, Multiset.count_cons_self] at shared
    exact Multiset.mem_cons_of_mem (Multiset.count_pos.mp (by omega))
  rw [if_pos stays] at lastFree
  exact ⟨_, _, decremented, lastBalanced, unheld, lastBlocks.trans sameBlocks, by omega⟩

theorem increfAll_spec {blocks : List Nat} (bal : Balanced alloc held)
    (members : ∀ block ∈ blocks, block ∈ held) :
    ∃ next, alloc.increfAll blocks = .ok next ∧ Balanced next (↑blocks + held) ∧
      next.numBlocks = alloc.numBlocks ∧ next.free = alloc.free := by
  induction blocks generalizing alloc held with
  | nil => exact ⟨alloc, rfl, by simpa using bal, rfl, rfl⟩
  | cons block _ ih =>
    obtain ⟨_, incremented, middleBalanced, middleBlocks, middleFree⟩ :=
      bal.incref_spec (members block (by simp))
    obtain ⟨next, rest, nextBalanced, nextBlocks, nextFree⟩ := ih middleBalanced
      (fun other member => Multiset.mem_cons_of_mem (members other (mem_cons_of_mem _ member)))
    refine ⟨next, ?_, ?_, nextBlocks.trans middleBlocks, nextFree.trans middleFree⟩
    · simp only [BlockAllocator.increfAll, incremented, rest]
    · rw [← Multiset.cons_coe, Multiset.cons_add, ← Multiset.add_cons]
      exact nextBalanced

theorem decrefAll_spec {blocks : List Nat} (bal : Balanced alloc (↑blocks + held)) :
    ∃ next, alloc.decrefAll blocks = .ok next ∧ Balanced next held ∧
      next.numBlocks = alloc.numBlocks ∧ alloc.numFree ≤ next.numFree := by
  induction blocks generalizing alloc with
  | nil => exact ⟨alloc, rfl, by simpa using bal, rfl, Nat.le_refl _⟩
  | cons _ _ ih =>
    rw [← Multiset.cons_coe, Multiset.cons_add] at bal
    obtain ⟨_, _, decremented, middleBalanced, middleBlocks, _⟩ := bal.decref_spec
    obtain ⟨next, rest, nextBalanced, nextBlocks, _⟩ := ih middleBalanced
    refine ⟨next, ?_, nextBalanced, nextBlocks.trans middleBlocks, by omega⟩
    simp only [BlockAllocator.decrefAll, decremented, rest]

end Balanced

/-- The references held by a list of owners, each through a table of blocks. -/
def heldBy {α : Type} (table : α → List Nat) (owners : List α) : Multiset Nat :=
  (owners.map fun owner => (↑(table owner) : Multiset Nat)).sum

section Owners

variable {α : Type} {table : α → List Nat} {owners : List α}

@[simp] theorem heldBy_nil : heldBy table [] = 0 := rfl

@[simp] theorem heldBy_cons (owner : α) : heldBy table (owner :: owners) = ↑(table owner) + heldBy table owners := by
  simp [heldBy]

@[simp] theorem heldBy_append (more : List α) :
    heldBy table (owners ++ more) = heldBy table owners + heldBy table more := by
  simp [heldBy]

theorem heldBy_perm {others : List α} (same : owners.Perm others) : heldBy table owners = heldBy table others :=
  (same.map _).sum_eq

theorem mem_heldBy {block : Nat} : block ∈ heldBy table owners ↔ ∃ owner ∈ owners, block ∈ table owner := by
  induction owners with
  | nil => simp
  | cons _ _ ih => simp [ih]

theorem heldBy_of_getElem? {index : Nat} {owner : α} (placed : owners[index]? = some owner) :
    heldBy table owners = ↑(table owner) + heldBy table (owners.eraseIdx index) := by
  obtain ⟨inList, rfl⟩ := List.getElem?_eq_some_iff.mp placed
  exact heldBy_perm (getElem_cons_eraseIdx_perm inList).symm

theorem heldBy_set {index : Nat} (inList : index < owners.length) (owner : α) :
    heldBy table (owners.set index owner) = ↑(table owner) + heldBy table (owners.eraseIdx index) := by
  have placed : (owners.set index owner)[index]? = some owner := by simp [inList]
  rw [heldBy_of_getElem? placed, eraseIdx_set_eq]

end Owners

end Nanoserve.Verified
