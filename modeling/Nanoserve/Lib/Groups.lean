import Mathlib.Data.List.Basic

/-! # Groups of one size

A list cut into consecutive groups, as a row of a tensor is when its last dimension is split in two,
and put together again.
-/

namespace Nanoserve.Lib

open List

variable {α : Type} {size count : Nat} {items : List α} {parts : List (List α)}

/-- `count` groups of `size` items each. -/
def groups (size : Nat) : Nat → List α → List (List α)
  | 0, _ => []
  | count + 1, items => items.take size :: groups size count (items.drop size)

@[simp] theorem length_groups (size count : Nat) (items : List α) : (groups size count items).length = count := by
  induction count generalizing items with
  | zero => rfl
  | succ _ ih => rw [groups, length_cons, ih]

theorem length_of_mem_groups (length : items.length = count * size) {part : List α}
    (mem : part ∈ groups size count items) : part.length = size := by
  induction count generalizing items with
  | zero => cases mem
  | succ _ ih =>
    rw [Nat.succ_mul] at length
    rcases mem_cons.mp mem with rfl | later
    · rw [length_take]
      omega
    · exact ih (by rw [length_drop]; omega) later

theorem flatten_groups (length : items.length = count * size) : (groups size count items).flatten = items := by
  induction count generalizing items with
  | zero => exact (eq_nil_of_length_eq_zero (by omega)).symm
  | succ _ ih =>
    rw [Nat.succ_mul] at length
    rw [groups, flatten_cons, ih (by rw [length_drop]; omega), take_append_drop]

theorem groups_flatten (sized : ∀ part ∈ parts, part.length = size) : groups size parts.length parts.flatten = parts := by
  induction parts with
  | nil => rfl
  | cons _ _ ih =>
    obtain ⟨here, later⟩ := forall_mem_cons.mp sized
    rw [length_cons, groups, flatten_cons, ← here, take_left, drop_left, here, ih later]

theorem length_flatten_groups (sized : ∀ part ∈ parts, part.length = size) :
    parts.flatten.length = parts.length * size := by
  rw [length_flatten, map_congr_left sized, map_const', sum_replicate_nat]

theorem getElem?_flatten (pos : 0 < size) (sized : ∀ part ∈ parts, part.length = size) (i : Nat) :
    parts.flatten[i]? = (parts[i / size]?).bind (·[i % size]?) := by
  induction parts generalizing i with
  | nil => simp
  | cons _ _ ih =>
    obtain ⟨here, later⟩ := forall_mem_cons.mp sized
    rw [flatten_cons, getElem?_append, here]
    split
    · next first => simp [Nat.div_eq_of_lt first, Nat.mod_eq_of_lt first]
    · next rest =>
      have shift : i = i - size + size := by omega
      rw [ih later, shift, Nat.add_sub_cancel, Nat.add_div_right _ pos, Nat.add_mod_right, getElem?_cons_succ]

end Nanoserve.Lib
