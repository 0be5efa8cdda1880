import Mathlib.Data.List.Nodup
import Mathlib.Data.List.Basic

/-! # Insertion-ordered dictionaries

A dictionary in the sense of a scripting language: a finite map that remembers the order in which
its keys were first inserted.
-/

namespace Nanoserve.Lib

open List

structure Dict (κ ν : Type) where
  items : List (κ × ν)
  nodupKeys : (items.map Prod.fst).Nodup

namespace Dict

variable {κ ν : Type}
variable {dict : Dict κ ν} {key : κ} {value : ν}

def empty : Dict κ ν := ⟨[], nodup_nil⟩

def keys (dict : Dict κ ν) : List κ := dict.items.map Prod.fst

def values (dict : Dict κ ν) : List ν := dict.items.map Prod.snd

def size (dict : Dict κ ν) : Nat := dict.items.length

@[simp] theorem items_empty : (empty : Dict κ ν).items = [] := rfl

theorem eq_of_items {first second : Dict κ ν} (same : first.items = second.items) : first = second := by
  cases first
  cases second
  cases same
  rfl

theorem eq_of_mem {first second : ν} (left : (key, first) ∈ dict.items) (right : (key, second) ∈ dict.items) :
    first = second := by
  have pairEq := inj_on_of_nodup_map dict.nodupKeys left right rfl
  exact congrArg Prod.snd pairEq

theorem nodup_keys (dict : Dict κ ν) : dict.keys.Nodup := dict.nodupKeys

variable [DecidableEq κ]

/-! ## Lookup -/

def get? (dict : Dict κ ν) (key : κ) : Option ν :=
  (dict.items.find? fun item => item.1 = key).map Prod.snd

theorem get?_eq_some : dict.get? key = some value ↔ (key, value) ∈ dict.items := by
  simp only [get?, Option.map_eq_some_iff]
  constructor
  · rintro ⟨⟨foundKey, foundValue⟩, found, rfl⟩
    have keyEq : foundKey = key := by simpa using find?_some found
    subst keyEq
    exact mem_of_find?_eq_some found
  · intro mem
    cases found : dict.items.find? (fun item => item.1 = key) with
    | none =>
      have absent := find?_eq_none.mp found _ mem
      simp at absent
    | some item =>
      obtain ⟨foundKey, foundValue⟩ := item
      have keyEq : foundKey = key := by simpa using find?_some found
      subst keyEq
      exact ⟨_, rfl, eq_of_mem (mem_of_find?_eq_some found) mem⟩

theorem get?_eq_none : dict.get? key = none ↔ key ∉ dict.keys := by
  simp only [get?, Option.map_eq_none_iff, find?_eq_none, decide_eq_true_eq, keys,
    mem_map, not_exists, not_and]

@[simp] theorem get?_empty (key : κ) : (empty : Dict κ ν).get? key = none := rfl

/-! ## Removal -/

def erase (dict : Dict κ ν) (key : κ) : Dict κ ν where
  items := dict.items.filter fun item => item.1 ≠ key
  nodupKeys := dict.nodupKeys.sublist (filter_sublist.map Prod.fst)

@[simp] theorem mem_items_erase {item : κ × ν} :
    item ∈ (dict.erase key).items ↔ item ∈ dict.items ∧ item.1 ≠ key := by
  simp [erase, mem_filter]

theorem get?_erase (dict : Dict κ ν) (erased key : κ) :
    (dict.erase erased).get? key = if key = erased then none else dict.get? key := by
  ext value
  by_cases same : key = erased
  · simp [get?_eq_some, same]
  · simp [get?_eq_some, same]

def filter (dict : Dict κ ν) (keep : κ → ν → Bool) : Dict κ ν where
  items := dict.items.filter fun item => keep item.1 item.2
  nodupKeys := dict.nodupKeys.sublist (filter_sublist.map Prod.fst)

theorem get?_filter (dict : Dict κ ν) (keep : κ → ν → Bool) (key : κ) :
    (dict.filter keep).get? key = (dict.get? key).filter (keep key) := by
  ext value
  rw [get?_eq_some, Option.filter_eq_some_iff, get?_eq_some, filter, mem_filter]

theorem items_perm_erase (mem : (key, value) ∈ dict.items) :
    dict.items.Perm ((key, value) :: (dict.erase key).items) := by
  obtain ⟨items, nodupKeys⟩ := dict
  simp only [erase]
  induction items with
  | nil => cases mem
  | cons item items ih =>
    simp only [map_cons, nodup_cons] at nodupKeys
    obtain ⟨fresh, restNodup⟩ := nodupKeys
    rcases mem_cons.mp mem with rfl | memberRest
    · have untouched : items.filter (fun item => item.1 ≠ key) = items := by
        rw [filter_eq_self]
        intro other otherMember
        have differs : other.1 ≠ key := fun same => fresh (mem_map.mpr ⟨other, otherMember, same⟩)
        simpa using differs
      simp only [filter_cons, ne_eq, not_true_eq_false, decide_false, Bool.false_eq_true, if_false]
      rw [untouched]
    · have differs : item.1 ≠ key := by
        intro same
        exact fresh (mem_map.mpr ⟨_, memberRest, same.symm⟩)
      have rest := ih restNodup memberRest
      simp only [filter_cons, differs, ne_eq, not_false_eq_true, decide_true, if_true]
      exact (rest.cons item).trans (Perm.swap _ _ _)

/-! ## Assignment -/

/-- `dict[key] = value`: in place for a key that is there, at the end otherwise. -/
def set (dict : Dict κ ν) (key : κ) (value : ν) : Dict κ ν :=
  if present : key ∈ dict.items.map Prod.fst then
    { items := dict.items.map fun item => if item.1 = key then (key, value) else item
      nodupKeys := by
        have sameKeys : (dict.items.map fun item => if item.1 = key then (key, value) else item).map Prod.fst
            = dict.items.map Prod.fst := by
          rw [map_map]
          apply map_congr_left
          intro item _
          by_cases same : item.1 = key <;> simp [same]
        rw [sameKeys]
        exact dict.nodupKeys }
  else
    { items := dict.items ++ [(key, value)]
      nodupKeys := by
        rw [map_append]
        refine nodup_append.mpr ⟨dict.nodupKeys, by simp, ?_⟩
        intro other otherMember last lastMember same
        simp only [map_cons, map_nil, mem_singleton] at lastMember
        exact present (lastMember ▸ same ▸ otherMember) }

theorem mem_items_set {item : κ × ν} :
    item ∈ (dict.set key value).items ↔ item = (key, value) ∨ (item ∈ dict.items ∧ item.1 ≠ key) := by
  unfold set
  split
  case isTrue present =>
    obtain ⟨⟨_, _⟩, found, foundEq⟩ := mem_map.mp present
    simp only [mem_map]
    constructor
    · rintro ⟨other, otherMember, rfl⟩
      by_cases same : other.1 = key
      · simp [same]
      · exact .inr ⟨by simpa [same] using otherMember, by simp [same]⟩
    · rintro (rfl | ⟨mem, differs⟩)
      · exact ⟨_, found, if_pos foundEq⟩
      · exact ⟨item, mem, by simp [differs]⟩
  case isFalse absent =>
    simp only [mem_append, mem_singleton]
    constructor
    · rintro (mem | rfl)
      · exact .inr ⟨mem, fun same => absent (same ▸ mem_map_of_mem mem)⟩
      · exact .inl rfl
    · rintro (rfl | ⟨mem, _⟩)
      · exact .inr rfl
      · exact .inl mem

theorem get?_set (dict : Dict κ ν) (changed key : κ) (value : ν) :
    (dict.set changed value).get? key = if key = changed then some value else dict.get? key := by
  ext found
  by_cases same : key = changed
  · subst same
    simp only [get?_eq_some, mem_items_set, Prod.mk.injEq, true_and, ne_eq, not_true_eq_false,
      and_false, or_false, if_true, Option.some.injEq]
    exact eq_comm
  · simp [get?_eq_some, mem_items_set, same]

theorem items_set_of_absent (absent : dict.get? key = none) :
    (dict.set key value).items = dict.items ++ [(key, value)] := by
  have fresh : key ∉ dict.items.map Prod.fst := get?_eq_none.mp absent
  simp [set, fresh]

theorem items_set_of_present {old : ν} (present : dict.get? key = some old) :
    (dict.set key value).items =
      dict.items.map fun item => if item.1 = key then (key, value) else item := by
  have mem : key ∈ dict.items.map Prod.fst := mem_map_of_mem (get?_eq_some.mp present)
  simp [set, mem]

/-! ## Keys and values -/

theorem mem_keys : key ∈ dict.keys ↔ ∃ value, dict.get? key = some value := by
  rw [← not_iff_not, ← get?_eq_none, Option.eq_none_iff_forall_ne_some, not_exists]

theorem mem_keys_iff_isSome : key ∈ dict.keys ↔ (dict.get? key).isSome := by
  rw [mem_keys, Option.isSome_iff_exists]

theorem keys_set_of_absent (absent : dict.get? key = none) : (dict.set key value).keys = dict.keys ++ [key] := by
  simp [keys, items_set_of_absent absent]

theorem keys_set_of_present {old : ν} (present : dict.get? key = some old) :
    (dict.set key value).keys = dict.keys := by
  rw [keys, items_set_of_present present, List.map_map]
  apply map_congr_left
  intro item _
  by_cases same : item.1 = key <;> simp [same]

theorem keys_erase (dict : Dict κ ν) (key : κ) : (dict.erase key).keys = dict.keys.filter fun other => other ≠ key := by
  simp only [keys, erase, filter_map]
  rfl

theorem map_some_values (dict : Dict κ ν) : dict.values.map some = dict.keys.map dict.get? := by
  simp only [values, keys, map_map]
  apply map_congr_left
  intro item mem
  exact (get?_eq_some.mpr mem).symm

theorem erase_set (dict : Dict κ ν) (key : κ) (value : ν) : (dict.set key value).erase key = dict.erase key := by
  simp only [erase, mk.injEq]
  unfold set
  split
  · rw [filter_map]
    have untouched : ((fun item : κ × ν => decide (item.1 ≠ key)) ∘
        fun item => if item.1 = key then (key, value) else item) = fun item => decide (item.1 ≠ key) := by
      funext item
      by_cases same : item.1 = key <;> simp [same]
    rw [untouched]
    refine (map_congr_left ?_).trans (map_id _)
    intro item mem
    exact if_neg (by simpa using (mem_filter.mp mem).2)
  · simp

theorem items_perm_set {dict : Dict κ ν} {key : κ} (value : ν) :
    (dict.set key value).items.Perm ((key, value) :: (dict.erase key).items) := by
  have fresh : (key, value) ∉ (dict.erase key).items := by simp
  refine (perm_ext_iff_of_nodup (dict.set key value).nodupKeys.of_map
    (nodup_cons.mpr ⟨fresh, (dict.erase key).nodupKeys.of_map⟩)).mpr ?_
  intro item
  rw [mem_items_set, mem_cons, mem_items_erase]

theorem mem_keys_foldl_set {α : Type} {key : α → κ} {value : α → ν} (entries : List α) (dict : Dict κ ν) (wanted : κ) :
    wanted ∈ (entries.foldl (fun dict entry => dict.set (key entry) (value entry)) dict).keys ↔
      wanted ∈ dict.keys ∨ wanted ∈ entries.map key := by
  induction entries generalizing dict with
  | nil => simp
  | cons _ _ ih =>
    rw [foldl_cons, ih, map_cons, mem_cons, mem_keys_iff_isSome, mem_keys_iff_isSome,
      get?_set]
    split
    case isTrue same => simp [same]
    case isFalse differs => simp [differs]

theorem items_foldl_set {α : Type} {key : α → κ} {value : α → ν} {entries : List α} (dict : Dict κ ν)
    (fresh : ∀ entry ∈ entries, key entry ∉ dict.keys) (distinct : (entries.map key).Nodup) :
    (entries.foldl (fun dict entry => dict.set (key entry) (value entry)) dict).items =
      dict.items ++ entries.map fun entry => (key entry, value entry) := by
  induction entries generalizing dict with
  | nil => simp
  | cons _ _ ih =>
    obtain ⟨freshEntry, freshRest⟩ := forall_mem_cons.mp fresh
    obtain ⟨differs, distinctRest⟩ := nodup_cons.mp distinct
    have absent := get?_eq_none.mpr freshEntry
    rw [foldl_cons, ih _ ?_ distinctRest, items_set_of_absent absent, append_assoc,
      singleton_append, map_cons]
    intro later mem known
    rw [keys_set_of_absent absent, mem_append, mem_singleton] at known
    cases known with
    | inl before => exact freshRest later mem before
    | inr same => exact differs (mem_map.mpr ⟨later, mem, same⟩)

end Dict

/-! ## Folding -/

theorem foldl_pointwise {κ σ α β : Type} [DecidableEq κ] {view : σ → κ → β} {key : α → κ} {step : σ → α → σ}
    {change : α → β → β}
    (pointwise : ∀ state entry other, view (step state entry) other =
      if other = key entry then change entry (view state other) else view state other)
    {entries : List α} (distinct : (entries.map key).Nodup) (state : σ) (other : κ) :
    view (entries.foldl step state) other =
      (entries.find? fun entry => key entry = other).elim (view state other) fun entry =>
        change entry (view state other) := by
  induction entries generalizing state with
  | nil => rfl
  | cons entry entries ih =>
    obtain ⟨fresh, distinctRest⟩ := nodup_cons.mp distinct
    rw [foldl_cons, ih distinctRest, pointwise]
    by_cases same : other = key entry
    · -- No later entry has this key.
      subst same
      have none : entries.find? (fun later => key later = key entry) = none := by
        rw [find?_eq_none]
        intro later mem equal
        exact fresh (mem_map.mpr ⟨later, mem, of_decide_eq_true equal⟩)
      rw [none, if_pos rfl, find?_cons_of_pos (by simp)]
      rfl
    · rw [if_neg same, find?_cons_of_neg (by simpa using Ne.symm same)]

theorem Dict.foldl_items_pointwise {κ ν σ β : Type} [DecidableEq κ] {view : σ → κ → β} {step : σ → κ × ν → σ}
    {change : κ → ν → β → β}
    (pointwise : ∀ state key value other, view (step state (key, value)) other =
      if other = key then change key value (view state other) else view state other)
    (dict : Dict κ ν) (state : σ) (other : κ) :
    view (dict.items.foldl step state) other =
      (dict.get? other).elim (view state other) fun value => change other value (view state other) := by
  have folded := @foldl_pointwise κ σ (κ × ν) β _ view Prod.fst step (fun item => change item.1 item.2)
    (fun state item other => pointwise state item.1 item.2 other) dict.items dict.nodupKeys state other
  rw [folded, Dict.get?]
  cases found : dict.items.find? (fun item => item.1 = other) with
  | none => rfl
  | some item =>
    have named : item.1 = other := by simpa using find?_some found
    subst named
    rfl

end Nanoserve.Lib
