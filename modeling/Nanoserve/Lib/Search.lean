import Mathlib.Data.List.Basic

/-! # Binary search

The smallest index below `count` from which on a condition holds, found by halving.
-/

namespace Nanoserve.Lib

open List

variable {holds : Nat → Bool} {count low high : Nat}

/-- `for low < high`: the condition fails below `low` and holds from `high` on. -/
def searchBetween (holds : Nat → Bool) (low high : Nat) : Nat :=
  if low < high then
    let middle := (low + high) / 2
    if holds middle then searchBetween holds low middle else searchBetween holds (middle + 1) high
  else low
termination_by high - low

def search (count : Nat) (holds : Nat → Bool) : Nat := searchBetween holds 0 count

/-- The search for an item of a list. -/
def searchList {α : Type} (items : List α) (holds : α → Bool) : Nat :=
  search items.length fun i => (items[i]?).any holds

/-- From `index` on the condition holds, and nowhere before it. -/
structure Threshold (count : Nat) (holds : Nat → Bool) (index : Nat) : Prop where
  bound : index ≤ count
  below : ∀ i, i < index → holds i = false
  above : ∀ i, index ≤ i → i < count → holds i = true

theorem searchBetween_threshold
    (monotone : ∀ first second, first ≤ second → second < count → holds first = true → holds second = true)
    (ordered : low ≤ high) (bound : high ≤ count) (below : ∀ i, i < low → holds i = false)
    (above : ∀ i, high ≤ i → i < count → holds i = true) : Threshold count holds (searchBetween holds low high) := by
  -- Along the halving; the two ends keep what is known about the condition outside of them.
  fun_induction searchBetween holds low high with
  | case1 _ _ _ middle yes ih =>
    refine ih (by omega) (by omega) below fun i reached lt => ?_
    exact monotone middle i reached lt yes
  | case2 _ _ _ middle no ih =>
    refine ih (by omega) bound (fun i lt => ?_) above
    rw [← Bool.not_eq_true]
    intro yes
    exact no (monotone i middle (by omega) (by omega) yes)
  | case3 low high =>
    obtain rfl : low = high := by omega
    exact ⟨bound, below, above⟩

theorem search_threshold
    (monotone : ∀ first second, first ≤ second → second < count → holds first = true → holds second = true) :
    Threshold count holds (search count holds) :=
  searchBetween_threshold monotone (Nat.zero_le _) (Nat.le_refl _) (fun _ lt => absurd lt (Nat.not_lt_zero _))
    fun _ reached lt => absurd lt (Nat.not_lt.mpr reached)

theorem searchList_eq_findIdx {α : Type} {items : List α} {holds : α → Bool}
    (sorted : items.Pairwise fun first second => holds first = true → holds second = true) :
    searchList items holds = items.findIdx holds := by
  have threshold : Threshold items.length (fun i => (items[i]?).any holds) (searchList items holds) := by
    refine search_threshold fun first second le lt yes => ?_
    have before := Nat.lt_of_le_of_lt le lt
    simp only [getElem?_eq_getElem before, getElem?_eq_getElem lt, Option.any_some] at yes ⊢
    rcases Nat.eq_or_lt_of_le le with rfl | early
    · exact yes
    · exact pairwise_iff_getElem.mp sorted first second before lt early yes
  have below : ∀ i, i < searchList items holds → (lt : i < items.length) → holds items[i] = false := by
    intro i early lt
    simpa [lt] using threshold.below i early
  rcases Nat.eq_or_lt_of_le threshold.bound with past | inside
  · rw [past, eq_comm, findIdx_eq_length]
    intro item mem
    obtain ⟨i, lt, rfl⟩ := getElem_of_mem mem
    exact below i (past ▸ lt) lt
  · rw [eq_comm, findIdx_eq inside]
    exact ⟨by simpa [inside] using threshold.above _ (Nat.le_refl _) inside, fun i early => below i early _⟩

end Nanoserve.Lib
