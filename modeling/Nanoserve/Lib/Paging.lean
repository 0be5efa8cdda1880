import Mathlib.Data.List.Nodup
import Mathlib.Data.List.Basic
import Mathlib.Data.List.GetD
import Mathlib.Logic.Function.Basic

/-! # Page tables over a flat memory

A page table is a list of page numbers.
-/

namespace Nanoserve.Lib

open List

variable {count size pages first position index : Nat} {table : List Nat}

/-! ## Rounding up -/

/-- `-(-count // size)`, the number of pages that hold `count` positions. -/
def ceilDiv (count size : Nat) : Nat := (count + size - 1) / size

theorem ceilDiv_le_iff (pos : 0 < size) : ceilDiv count size ≤ pages ↔ count ≤ pages * size := by
  unfold ceilDiv
  rw [Nat.div_le_iff_le_mul_add_pred pos]
  rw [Nat.mul_comm size pages]
  omega

theorem le_ceilDiv_mul (pos : 0 < size) : count ≤ ceilDiv count size * size :=
  (ceilDiv_le_iff pos).mp (Nat.le_refl _)

theorem ceilDiv_mono {second : Nat} (pos : 0 < size) (le : first ≤ second) :
    ceilDiv first size ≤ ceilDiv second size :=
  (ceilDiv_le_iff pos).mpr (Nat.le_trans le (le_ceilDiv_mul pos))

@[simp] theorem ceilDiv_zero (pos : 0 < size) : ceilDiv 0 size = 0 := by
  have none : ceilDiv 0 size ≤ 0 := (ceilDiv_le_iff pos).mpr (Nat.zero_le _)
  omega

section

variable (pos : 0 < size)
include pos

theorem ceilDiv_mul : ceilDiv (pages * size) size = pages := by
  apply Nat.le_antisymm ((ceilDiv_le_iff pos).mpr (Nat.le_refl _))
  have covers : pages * size ≤ ceilDiv (pages * size) size * size := le_ceilDiv_mul pos
  exact Nat.le_of_mul_le_mul_right covers pos

theorem div_lt_ceilDiv (lt : position < count) : position / size < ceilDiv count size := by
  rw [Nat.div_lt_iff_lt_mul pos]
  exact Nat.lt_of_lt_of_le lt (le_ceilDiv_mul pos)

theorem div_le_ceilDiv : count / size ≤ ceilDiv count size := by
  rw [Nat.div_le_iff_le_mul_add_pred pos, Nat.mul_comm]
  have covered : count ≤ ceilDiv count size * size := le_ceilDiv_mul pos
  omega

theorem ceilDiv_of_mod_ne_zero (partlyFull : count % size ≠ 0) :
    ceilDiv count size = count / size + 1 := by
  have split := Nat.div_add_mod count size
  have below := Nat.mod_lt count pos
  rw [Nat.mul_comm] at split
  apply Nat.le_antisymm
  · rw [ceilDiv_le_iff pos, Nat.add_mul]
    omega
  · have same : (count - 1) / size = count / size := by
      apply Nat.div_eq_of_lt_le
      · omega
      · rw [Nat.add_mul]; omega
    have lastPage := div_lt_ceilDiv pos (by omega : count - 1 < count)
    omega

theorem ceilDiv_of_mod_eq_zero (full : count % size = 0) :
    ceilDiv count size = count / size := by
  have split := Nat.div_add_mod count size
  rw [full, Nat.add_zero, Nat.mul_comm] at split
  conv_lhs => rw [← split]
  exact ceilDiv_mul pos

theorem ceilDiv_lt_of_mod_eq_zero (full : count % size = 0) (below : count < pages * size) :
    ceilDiv count size < pages := by
  rw [ceilDiv_of_mod_eq_zero pos full]
  exact (Nat.div_lt_iff_lt_mul pos).mpr below

end

/-! ## Addresses of a page table -/

/-- The flat addresses of one page. -/
def pageSlots (size page : Nat) : List Nat := range' (page * size) size

/-- The flat addresses of a page table, page after page. -/
def slots (size : Nat) (table : List Nat) : List Nat := table.flatMap (pageSlots size)

@[simp] theorem length_pageSlots (size page : Nat) : (pageSlots size page).length = size := by
  simp [pageSlots]

@[simp] theorem slots_nil (size : Nat) : slots size [] = [] := rfl

@[simp] theorem slots_cons (size page : Nat) (table : List Nat) :
    slots size (page :: table) = pageSlots size page ++ slots size table := rfl

theorem slots_append (size : Nat) (left right : List Nat) :
    slots size (left ++ right) = slots size left ++ slots size right := by
  simp [slots]

@[simp] theorem length_slots (size : Nat) (table : List Nat) :
    (slots size table).length = table.length * size := by
  induction table with
  | nil => simp
  | cons _ _ ih =>
    rw [slots_cons, length_append, ih, length_pageSlots, length_cons,
      Nat.add_mul]
    omega

/-- Where position `position` of a paged sequence lives. -/
def address (size : Nat) (table : List Nat) (position : Nat) : Nat :=
  table.getD (position / size) 0 * size + position % size

theorem getElem?_slots (pos : 0 < size) (lt : position < table.length * size) :
    (slots size table)[position]? = some (address size table position) := by
  induction table generalizing position with
  | nil => simp at lt
  | cons _ _ ih =>
    rw [slots_cons]
    by_cases inHead : position < size
    · rw [getElem?_append_left (by simpa using inHead)]
      simp [pageSlots, address, Nat.div_eq_of_lt inHead, Nat.mod_eq_of_lt inHead, inHead]
    · have atLeast : size ≤ position := Nat.le_of_not_lt inHead
      rw [getElem?_append_right (by simpa using atLeast), length_pageSlots]
      rw [ih (by rw [length_cons, Nat.add_mul] at lt; omega)]
      have quotient : position / size = (position - size) / size + 1 := by
        rw [Nat.div_eq_sub_div pos atLeast]
      have remainder := Nat.mod_eq_sub_mod atLeast
      simp [address, quotient, remainder]

theorem take_slots (pos : 0 < size) (le : count ≤ table.length * size) :
    (slots size table).take count = (range count).map (address size table) := by
  apply ext_getElem?
  intro position
  by_cases lt : position < count
  · rw [getElem?_take_of_lt lt, getElem?_slots pos (Nat.lt_of_lt_of_le lt le)]
    simp [lt]
  · have outside : count ≤ position := Nat.le_of_not_lt lt
    rw [getElem?_eq_none (by simp; omega), getElem?_eq_none (by simpa using outside)]

theorem take_drop_slots (pos : 0 < size) {start : Nat} (le : start + count ≤ table.length * size) :
    ((slots size table).take (start + count)).drop start =
      (range count).map fun offset => address size table (start + offset) := by
  rw [take_slots pos le]
  apply ext_getElem?
  intro position
  simp only [getElem?_drop, getElem?_map]
  by_cases lt : position < count
  · simp [lt]
  · rw [getElem?_eq_none (by simp; omega), getElem?_eq_none (by simp; omega)]
    rfl

theorem div_address (pos : 0 < size) (table : List Nat) (position : Nat) :
    address size table position / size = table.getD (position / size) 0 := by
  unfold address
  rw [Nat.mul_comm, Nat.mul_add_div pos, Nat.div_eq_of_lt (Nat.mod_lt _ pos), Nat.add_zero]

theorem mod_address (table : List Nat) (position : Nat) : address size table position % size = position % size := by
  unfold address
  rw [Nat.mul_comm, Nat.mul_add_mod, Nat.mod_mod]

theorem address_injective (pos : 0 < size) (nodup : table.Nodup) {second : Nat}
    (firstLt : first < table.length * size) (secondLt : second < table.length * size)
    (same : address size table first = address size table second) : first = second := by
  have quotients := congrArg (· / size) same
  have remainders := congrArg (· % size) same
  simp only [div_address pos, mod_address] at quotients remainders
  have firstIn := (Nat.div_lt_iff_lt_mul pos).mpr firstLt
  have secondIn := (Nat.div_lt_iff_lt_mul pos).mpr secondLt
  rw [getD_eq_getElem _ _ firstIn, getD_eq_getElem _ _ secondIn] at quotients
  have indices := (nodup.getElem_inj_iff).mp quotients
  rw [← Nat.div_add_mod first size, ← Nat.div_add_mod second size, indices, remainders]

theorem address_append_left (pos : 0 < size) (more : List Nat) (lt : position < table.length * size) :
    address size (table ++ more) position = address size table position := by
  have inTable := (Nat.div_lt_iff_lt_mul pos).mpr lt
  simp only [address]
  rw [getD_append _ _ _ _ inTable]

theorem getD_mem (lt : index < table.length) : table.getD index 0 ∈ table := by
  rw [getD_eq_getElem _ _ lt]
  exact getElem_mem lt

theorem getD_mem_drop (le : first ≤ index) (lt : index < table.length) : table.getD index 0 ∈ table.drop first := by
  rw [getD_eq_getElem _ _ lt]
  exact mem_drop_iff_getElem.mpr ⟨index - first, by omega, by congr 1; omega⟩

theorem mem_drop_iff_getLast? {page : Nat} (length : table.length = index + 1) :
    page ∈ table.drop index ↔ table.getLast? = some page := by
  have inTable : index < table.length := by omega
  rw [drop_eq_getElem_cons inTable, drop_eq_nil_of_le (by omega), mem_singleton,
    getLast?_eq_getElem?, length, Nat.add_sub_cancel, getElem?_eq_getElem inTable, Option.some.injEq,
    eq_comm]

/-! ## Indexed reads and writes -/

variable {V : Type}

/-- `memory[addresses] = values`, one address after the other. -/
def scatter (memory : Nat → V) : List Nat → List V → Nat → V
  | address :: addresses, value :: values => scatter (Function.update memory address value) addresses values
  | _, _ => memory

@[simp] theorem scatter_nil (memory : Nat → V) (values : List V) : scatter memory [] values = memory := by
  cases values <;> rfl

theorem scatter_of_not_mem {memory : Nat → V} {addresses : List Nat} {values : List V} {other : Nat}
    (outside : other ∉ addresses) : scatter memory addresses values other = memory other := by
  induction addresses generalizing memory values with
  | nil => rw [scatter_nil]
  | cons _ _ ih =>
    cases values with
    | nil => rfl
    | cons =>
      simp only [mem_cons, not_or] at outside
      rw [scatter, ih outside.2, Function.update_of_ne outside.1]

theorem scatter_getElem {memory : Nat → V} {addresses : List Nat} {values : List V}
    (nodup : addresses.Nodup) {index : Nat} (inAddresses : index < addresses.length)
    (inValues : index < values.length) :
    scatter memory addresses values addresses[index] = values[index] := by
  induction addresses generalizing memory values index with
  | nil => simp at inAddresses
  | cons _ _ ih =>
    cases values with
    | nil => simp at inValues
    | cons =>
      obtain ⟨fresh, restNodup⟩ := nodup_cons.mp nodup
      cases index with
      | zero =>
        simp only [getElem_cons_zero, scatter]
        rw [scatter_of_not_mem fresh, Function.update_self]
      | succ =>
        exact ih restNodup _ _

end Nanoserve.Lib
