import Mathlib.Algebra.BigOperators.Group.Finset.Basic
import Mathlib.Algebra.BigOperators.Ring.Finset
import Mathlib.Algebra.Order.BigOperators.Group.Finset
import Mathlib.Data.List.GetD
import Nanoserve.Model.Training
import Nanoserve.Verified.Vocabulary

/-! # The pair index is exact

At every step of training `pair_counts` holds, for each pair, how often it occurs in the current
words, weighted by their frequencies.
-/

namespace Nanoserve.Verified

open Lib Model Function Dict List
open BPETokenizer (train)
open Training (specialIds)

variable {word : List Nat} {id i nextId : Nat} {f : Int} {tr : Training} {item : (Nat × Nat) × Int}
  {specials : List String}
variable {p pair : Nat × Nat} {index : PairIndex} {cls : CharClasses} {corpus : List Text} {vocabSize : Int}
  {specials : List String}

theorem mem_pairs_cons {first : Nat} :
    p ∈ pairs (first :: word) ↔ (∃ second, word.head? = some second ∧ p = (first, second)) ∨ p ∈ pairs word := by
  cases word with
  | nil => simp [pairs]
  | cons => simp [pairs]

section ApplyMerge

variable {newId : Nat}

theorem head?_applyMerge (first : Nat) (word : List Nat) :
    (applyMerge pair newId (first :: word)).head? = some newId ∨
      (applyMerge pair newId (first :: word)).head? = some first := by
  cases word with
  | nil => exact .inr rfl
  | cons =>
    unfold applyMerge
    split
    · exact .inl rfl
    · exact .inr rfl

theorem mem_pairs_applyMerge (mem : p ∈ pairs (applyMerge pair newId word)) :
    (p ∈ pairs word ∧ p ≠ pair) ∨ p.1 = newId ∨ p.2 = newId := by
  fun_induction applyMerge pair newId word with
  | case1 _ _ _ _ ih =>
    cases mem_pairs_cons.mp mem with
    | inl front =>
      obtain ⟨_, _, rfl⟩ := front
      exact .inr (.inl rfl)
    | inr later =>
      cases ih later with
      | inl old => exact .inl ⟨mem_pairs_cons.mpr (.inr (mem_pairs_cons.mpr (.inr old.1))), old.2⟩
      | inr new => exact .inr new
  | case2 _ second word differs ih =>
    cases mem_pairs_cons.mp mem with
    | inl front =>
      obtain ⟨next, head, rfl⟩ := front
      cases head?_applyMerge second word with
      | inl new => exact .inr (.inr (Option.some.inj (head.symm.trans new)))
      | inr kept =>
        obtain rfl : next = second := Option.some.inj (head.symm.trans kept)
        refine .inl ⟨mem_pairs_cons.mpr (.inl ⟨_, rfl, rfl⟩), ?_⟩
        rintro rfl
        exact differs ⟨rfl, rfl⟩
    | inr later =>
      cases ih later with
      | inl old => exact .inl ⟨mem_pairs_cons.mpr (.inr old.1), old.2⟩
      | inr new => exact .inr new
  | case3 word short =>
    cases word with
    | nil => simp [pairs] at mem
    | cons first word =>
      cases word with
      | nil => simp [pairs] at mem
      | cons second word => exact absurd rfl (short first second word)

theorem mem_applyMerge (mem : id ∈ applyMerge pair newId word) : id = newId ∨ id ∈ word := by
  fun_induction applyMerge pair newId word with
  | case1 _ _ _ _ ih =>
    simp only [mem_cons] at mem ⊢
    cases mem with
    | inl new => exact .inl new
    | inr later => exact (ih later).imp_right fun old => .inr (.inr old)
  | case2 _ _ _ _ ih =>
    cases mem_cons.mp mem with
    | inl kept => exact .inr (kept ▸ mem_cons_self)
    | inr later => exact (ih later).imp_right (mem_cons_of_mem _)
  | case3 => exact .inr mem

theorem applyMerge_of_absent (absent : pair ∉ pairs word) : applyMerge pair newId word = word := by
  fun_induction applyMerge pair newId word with
  | case1 _ _ _ here =>
    obtain ⟨rfl, rfl⟩ := here
    exact absurd (mem_pairs_cons.mpr (.inl ⟨_, rfl, rfl⟩)) absent
  | case2 _ _ _ _ ih =>
    rw [ih fun later => absent (mem_pairs_cons.mpr (.inr later))]
  | case3 => rfl

theorem not_mem_pairs_applyMerge (left : pair.1 ≠ newId) (right : pair.2 ≠ newId) (word : List Nat) :
    pair ∉ pairs (applyMerge pair newId word) := by
  intro mem
  obtain ⟨_, differs⟩ | new | new := mem_pairs_applyMerge mem
  · exact differs rfl
  · exact left new
  · exact right new

end ApplyMerge

/-! ## The index -/

open PairIndex

theorem mem_placesOf_addPair {wi : Nat} :
    i ∈ (addPair wi f index pair).placesOf p ↔ i ∈ index.placesOf p ∨ (i = wi ∧ p = pair) := by
  simp only [addPair, placesOf, get?_set]
  by_cases same : p = pair
  · subst same
    by_cases here : wi ∈ (index.places.get? p).getD []
    · simp only [if_pos, here, Option.getD_some, and_true]
      exact ⟨.inl, fun either => either.elim id fun equal => equal ▸ here⟩
    · simp [here]
  · simp [same]

theorem mem_placesOf_retractPair {wi : Nat} :
    i ∈ (retractPair wi f index pair).placesOf p ↔ i ∈ index.placesOf p ∧ ¬(i = wi ∧ p = pair) := by
  simp only [retractPair, placesOf, get?_set]
  by_cases same : p = pair
  · subst same
    simp
  · simp [same]

theorem addPairs_spec (wi : Nat) (frequent : 0 < f) (added : List (Nat × Nat)) (pos : index.counts.Positive) :
    (added.foldl (addPair wi f) index).counts.Positive ∧
      (∀ p, (added.foldl (addPair wi f) index).counts.count p = index.counts.count p + f * added.count p) ∧
      ∀ p i, i ∈ (added.foldl (addPair wi f) index).placesOf p ↔ i ∈ index.placesOf p ∨ (i = wi ∧ p ∈ added) := by
  induction added generalizing index with
  | nil => exact ⟨pos, by simp, by simp⟩
  | cons pair _ ih =>
    have next : (addPair wi f index pair).counts.Positive := pos.increase pair frequent
    obtain ⟨positiveAfter, counts, places⟩ := ih next
    refine ⟨positiveAfter, ?_, ?_⟩
    · intro p
      rw [foldl_cons, counts, addPair, Counter.count_increase, count_cons]
      by_cases same : pair = p
      · simp [same, mul_add]
        omega
      · simp [same, Ne.symm same]
    · intro p i
      rw [foldl_cons, places, mem_placesOf_addPair, mem_cons, or_assoc, ← and_or_left]

theorem retractPairs_spec (wi : Nat) (frequent : 0 < f) (removed : List (Nat × Nat))
    (pos : index.counts.Positive) (enough : ∀ p, f * removed.count p ≤ index.counts.count p) :
    (removed.foldl (retractPair wi f) index).counts.Positive ∧
      (∀ p, (removed.foldl (retractPair wi f) index).counts.count p = index.counts.count p - f * removed.count p) ∧
      ∀ p i, i ∈ (removed.foldl (retractPair wi f) index).placesOf p ↔
        i ∈ index.placesOf p ∧ ¬(i = wi ∧ p ∈ removed) := by
  induction removed generalizing index with
  | nil => exact ⟨pos, by simp, by simp⟩
  | cons pair removed ih =>
    have next : (retractPair wi f index pair).counts.Positive := pos.decrease pair f
    have first : f ≤ index.counts.count pair := by
      have rest : 0 ≤ f * (removed.count pair : Int) := Int.mul_nonneg frequent.le (Int.natCast_nonneg _)
      have all := enough pair
      rw [count_cons_self, Nat.cast_add, Nat.cast_one, mul_add, mul_one] at all
      omega
    have less : ∀ p, (retractPair wi f index pair).counts.count p = index.counts.count p - if p = pair then f else 0 :=
      Counter.count_decrease first
    have counted : ∀ p, f * ((pair :: removed).count p : Int) = f * removed.count p + if p = pair then f else 0 := by
      intro p
      by_cases same : p = pair
      · simp [same, mul_add]
      · simp [same, Ne.symm same]
    obtain ⟨positiveAfter, counts, places⟩ := ih next (fun p => by
      have all := enough p
      rw [counted] at all
      rw [less]
      omega)
    refine ⟨positiveAfter, ?_, ?_⟩
    · intro p
      rw [foldl_cons, counts, less, counted]
      omega
    · intro p i
      rw [foldl_cons, places, mem_placesOf_retractPair, mem_cons, and_assoc, ← not_or, ← and_or_left]

structure Indexes (n : Nat) (words : Nat → List Nat) (freqs : Nat → Int) (index : PairIndex) : Prop where
  frequent : ∀ i, i < n → 0 < freqs i
  positive : index.counts.Positive
  counts : ∀ p, index.counts.count p = ∑ i ∈ Finset.range n, freqs i * ((pairs (words i)).count p : Int)
  places : ∀ p i, i ∈ index.placesOf p ↔ p ∈ pairs (words i)

namespace Indexes

variable {n : Nat} {words : Nat → List Nat} {freqs : Nat → Int}

theorem sum_update (words : Nat → List Nat) (freqs : Nat → Int) (inside : i < n) (word : List Nat) (p : Nat × Nat) :
    ∑ j ∈ Finset.range n, freqs j * ((pairs (update words i word j)).count p : Int) +
        freqs i * ((pairs (words i)).count p : Int) =
      ∑ j ∈ Finset.range n, freqs j * ((pairs (words j)).count p : Int) + freqs i * ((pairs word).count p : Int) := by
  have mem : i ∈ Finset.range n := Finset.mem_range.mpr inside
  have elsewhere : ∀ j ∈ (Finset.range n).erase i,
      freqs j * ((pairs (update words i word j)).count p : Int) =
        freqs j * ((pairs (words j)).count p : Int) := by
    intro j others
    rw [update_of_ne (Finset.ne_of_mem_erase others)]
  rw [← Finset.add_sum_erase _ _ mem, ← Finset.add_sum_erase _ _ mem, Finset.sum_congr rfl elsewhere,
    update_self]
  omega

section

variable (indexes : Indexes n words freqs index)
include indexes

theorem addWord (inside : i < n) (vacant : words i = []) (word : List Nat) :
    Indexes n (update words i word) freqs (index.addWord i (freqs i) word) := by
  obtain ⟨pos, counts, places⟩ := addPairs_spec i (indexes.frequent i inside) (pairs word) indexes.positive
  refine ⟨indexes.frequent, pos, ?_, ?_⟩
  · intro p
    have moved := sum_update words freqs inside word p
    have none : (pairs (words i)).count p = 0 := by simp [vacant, pairs]
    rw [none, Nat.cast_zero, mul_zero, add_zero, ← indexes.counts p] at moved
    rw [moved]
    exact counts p
  · intro p j
    refine (places p j).trans ?_
    rw [indexes.places]
    by_cases same : j = i
    · simp [same, vacant, pairs]
    · simp [same]

theorem retractWord (inside : i < n) :
    Indexes n (update words i []) freqs (index.retractWord i (freqs i) (words i)) := by
  have nonneg : ∀ p, ∀ j ∈ Finset.range n, 0 ≤ freqs j * ((pairs (words j)).count p : Int) := by
    intro p j mem
    exact Int.mul_nonneg (indexes.frequent j (Finset.mem_range.mp mem)).le (Int.natCast_nonneg _)
  have enough : ∀ p, freqs i * ((pairs (words i)).count p : Int) ≤ index.counts.count p := by
    intro p
    rw [indexes.counts]
    exact Finset.single_le_sum (nonneg p) (Finset.mem_range.mpr inside)
  obtain ⟨pos, counts, places⟩ :=
    retractPairs_spec i (indexes.frequent i inside) (pairs (words i)) indexes.positive enough
  refine ⟨indexes.frequent, pos, ?_, ?_⟩
  · intro p
    have moved := sum_update words freqs inside [] p
    have none : (pairs []).count p = 0 := rfl
    rw [none, Nat.cast_zero, mul_zero, add_zero, ← indexes.counts p] at moved
    refine (counts p).trans ?_
    omega
  · intro p j
    refine (places p j).trans ?_
    rw [indexes.places]
    by_cases same : j = i
    · simp [same, pairs]
    · simp [same]

theorem occurs (counted : p ∈ index.counts.keys) :
    ∃ i, i < n ∧ p ∈ pairs (words i) := by
  by_contra nowhere
  push Not at nowhere
  have zero : index.counts.count p = 0 := by
    rw [indexes.counts]
    refine Finset.sum_eq_zero fun i mem => ?_
    rw [count_eq_zero.mpr (nowhere i (Finset.mem_range.mp mem)), Nat.cast_zero, mul_zero]
  have pos := indexes.positive.mem_keys.mp counted
  omega

end

theorem foldl_addWord {items : List (List Nat × Int)} {start : Nat}
    (entries : ∀ j item, items[j]? = some item → item = (words (start + j), freqs (start + j)))
    (length : start + items.length = n)
    (indexes : Indexes n (fun i => if i < start then words i else []) freqs index) :
    Indexes n (fun i => if i < n then words i else []) freqs
      ((items.zipIdx start).foldl (fun index item => index.addWord item.2 item.1.2 item.1.1) index) := by
  induction items generalizing start index with
  | nil =>
    obtain rfl : start = n := by simpa using length
    exact indexes
  | cons item _ ih =>
    rw [length_cons] at length
    have itemEq : item = (words start, freqs start) := entries 0 item rfl
    have added := indexes.addWord (i := start) (by omega) (by simp) (words start)
    have extended : update (fun i => if i < start then words i else []) start (words start) =
        fun i => if i < start + 1 then words i else [] := by
      funext i
      by_cases same : i = start
      · subst same
        simp
      · rw [update_of_ne same]
        have bound : i < start ↔ i < start + 1 := by omega
        simp only [bound]
    rw [extended] at added
    rw [zipIdx_cons, foldl_cons, itemEq]
    refine ih ?_ (by omega) added
    intro j other found
    have shift : start + (j + 1) = start + 1 + j := by omega
    rw [← shift]
    exact entries (j + 1) other found

theorem of_lists {words : List (List Nat)} {freqs : List Int} (sameLength : words.length = freqs.length)
    (frequent : ∀ i, i < words.length → 0 < freqs.getD i 0) :
    Indexes words.length (words.getD · []) (freqs.getD · 0)
      ((words.zip freqs).zipIdx.foldl (fun index item => index.addWord item.2 item.1.2 item.1.1) {}) := by
  have empty : Indexes words.length (fun i => if i < 0 then words.getD i [] else []) (freqs.getD · 0) {} := by
    refine ⟨frequent, Counter.positive_empty, fun p => ?_, fun p i => ?_⟩
    · simp [pairs, Counter.count]
    · simp [pairs, placesOf]
  have entries : ∀ j item, (words.zip freqs)[j]? = some item → item = (words.getD (0 + j) [], freqs.getD (0 + j) 0) := by
    intro j item found
    obtain ⟨wordFound, freqFound⟩ := getElem?_zip_eq_some.mp found
    rw [Nat.zero_add, getD_eq_getElem?_getD, getD_eq_getElem?_getD, wordFound, freqFound]
    rfl
  have filled := empty.foldl_addWord entries (by simp [sameLength])
  -- There is no word beyond the last.
  have beyond : (fun i => if i < words.length then words.getD i [] else []) = (words.getD · []) := by
    funext i
    split
    · rfl
    case isFalse outside => exact (getD_eq_default _ _ (Nat.not_lt.mp outside)).symm
  rw [beyond] at filled
  exact filled

end Indexes

/-! ## One merge -/

structure Learned (training : Training) : Prop where
  indexes : Indexes training.words.length (training.words.getD · []) (training.freqs.getD · 0) training.index
  known : ∀ word ∈ training.words, ∀ id ∈ word, id < training.nextId
  exhausted : ∀ pair ∈ training.merges.keys, ∀ word ∈ training.words, pair ∉ pairs word
  ranked : Ranked 256 training.merges.items
  next : training.nextId = 256 + training.merges.size

structure Rewriting (pair : Nat × Nat) (before after : Training) (visited : List Nat) : Prop where
  indexes : Indexes before.words.length (after.words.getD · []) (before.freqs.getD · 0) after.index
  freqs : after.freqs = before.freqs
  merges : after.merges = before.merges
  nextId : after.nextId = before.nextId
  length : after.words.length = before.words.length
  words : ∀ i, after.words.getD i [] =
    if i ∈ visited then applyMerge pair before.nextId (before.words.getD i []) else before.words.getD i []

theorem getD_set {α : Type} {items : List α} (inside : i < items.length) (item fallback : α) :
    ((items.set i item).getD · fallback) = update (items.getD · fallback) i item := by
  funext j
  by_cases same : j = i
  · subst same
    simp [getD, inside]
  · simp [getD, same, Ne.symm same]

section Merge

variable {before after : Training} {visited : List Nat}

theorem Rewriting.rewrite (rewriting : Rewriting pair before after visited) (left : pair.1 ≠ before.nextId)
    (right : pair.2 ≠ before.nextId) (inside : i < before.words.length) :
    Rewriting pair before (after.rewrite pair i) (visited ++ [i]) := by
  have insideAfter : i < after.words.length := by
    rw [rewriting.length]
    exact inside
  -- A word visited before no longer has the pair, so merging again changes nothing.
  have merged : applyMerge pair after.nextId (after.words.getD i []) =
      applyMerge pair before.nextId (before.words.getD i []) := by
    rw [rewriting.nextId, rewriting.words i]
    split
    · exact applyMerge_of_absent (not_mem_pairs_applyMerge left right _)
    · rfl
  have words : ((after.rewrite pair i).words.getD · []) = update (after.words.getD · []) i
      (applyMerge pair before.nextId (before.words.getD i [])) := by
    simp only [Training.rewrite, merged]
    exact getD_set insideAfter _ _
  refine ⟨?_, rewriting.freqs, rewriting.merges, rewriting.nextId, ?_, ?_⟩
  · rw [words]
    have retracted := rewriting.indexes.retractWord inside
    have added := retracted.addWord inside (by simp) (applyMerge pair before.nextId (before.words.getD i []))
    rw [update_idem] at added
    simp only [Training.rewrite, merged, rewriting.freqs]
    exact added
  · simp only [Training.rewrite, length_set]
    exact rewriting.length
  · intro j
    have at_j := congrFun words j
    by_cases same : j = i
    · subst same
      simpa using at_j
    · rw [update_of_ne same] at at_j
      rw [at_j, rewriting.words j]
      simp only [mem_append, mem_singleton, same, or_false]

theorem Rewriting.foldl (rewriting : Rewriting pair before after visited) (left : pair.1 ≠ before.nextId)
    (right : pair.2 ≠ before.nextId) {affected : List Nat} (inside : ∀ i ∈ affected, i < before.words.length) :
    Rewriting pair before (affected.foldl (Training.rewrite pair) after) (visited ++ affected) := by
  induction affected generalizing after visited with
  | nil => simpa using rewriting
  | cons i _ ih =>
    have next := rewriting.rewrite left right (inside i mem_cons_self)
    have rest := ih next fun j mem => inside j (mem_cons_of_mem _ mem)
    rw [append_assoc] at rest
    exact rest

theorem merge_spec (learned : Learned tr) (left : pair.1 < tr.nextId) (right : pair.2 < tr.nextId) :
    (tr.merge pair).words = tr.words.map (applyMerge pair tr.nextId) ∧
      (tr.merge pair).freqs = tr.freqs ∧
      (tr.merge pair).merges = tr.merges.set pair tr.nextId ∧
      (tr.merge pair).nextId = tr.nextId + 1 ∧
      Indexes tr.words.length ((tr.merge pair).words.getD · []) (tr.freqs.getD · 0)
        (tr.merge pair).index := by
  have started : Rewriting pair { tr with merges := tr.merges.set pair tr.nextId }
      { tr with merges := tr.merges.set pair tr.nextId } [] :=
    ⟨learned.indexes, rfl, rfl, rfl, rfl, by simp⟩
  have places := learned.indexes.places pair
  have inside : ∀ i ∈ tr.index.placesOf pair, i < tr.words.length := by
    intro i mem
    by_contra outside
    have vacant : tr.words.getD i [] = [] := by simp [getD, Nat.not_lt.mp outside]
    have occurs := (places i).mp mem
    rw [vacant] at occurs
    exact absurd occurs (by simp [pairs])
  have rewritten := started.foldl (Nat.ne_of_lt left) (Nat.ne_of_lt right) inside
  -- The words that were not visited do not have the pair.
  have words : ∀ i, (tr.merge pair).words.getD i [] = applyMerge pair tr.nextId (tr.words.getD i []) := by
    intro i
    refine (rewritten.words i).trans ?_
    split
    · rfl
    case isFalse unvisited => exact (applyMerge_of_absent fun occurs => unvisited ((places i).mpr occurs)).symm
  refine ⟨?_, rewritten.freqs, rewritten.merges, rfl, rewritten.indexes.frequent, rewritten.indexes.positive,
    rewritten.indexes.counts, ?_⟩
  · refine ext_getElem (by rw [length_map]; exact rewritten.length) fun i inside insideMap => ?_
    have same := words i
    rw [length_map] at insideMap
    rw [getD_eq_getElem _ _ inside, getD_eq_getElem _ _ insideMap] at same
    rw [same, getElem_map]
  · intro p i
    have exact := rewritten.indexes.places p i
    by_cases same : p = pair
    · subst same
      have gone : p ∉ pairs ((tr.merge p).words.getD i []) := by
        rw [words]
        exact not_mem_pairs_applyMerge (Nat.ne_of_lt left) (Nat.ne_of_lt right) _
      have erased : (tr.merge p).index.placesOf p = [] := by
        simp [Training.merge, placesOf, get?_erase]
      rw [erased]
      simpa using gone
    · refine Iff.trans ?_ exact
      simp only [Training.merge, placesOf, get?_erase, same, if_false]

theorem greater_eq_or (best : Option ((Nat × Nat) × Int)) (item : (Nat × Nat) × Int) :
    greater best item = best ∨ greater best item = some item := by
  unfold greater
  split
  · exact .inr rfl
  · split
    · exact .inr rfl
    · exact .inl rfl

theorem mem_of_foldl_greater {items : List ((Nat × Nat) × Int)} {best : Option ((Nat × Nat) × Int)}
    (found : items.foldl greater best = some item) : best = some item ∨ item ∈ items := by
  induction items generalizing best with
  | nil => exact .inl found
  | cons first _ ih =>
    cases ih found with
    | inr later => exact .inr (mem_cons_of_mem _ later)
    | inl chosen =>
      cases greater_eq_or best first with
      | inl kept => exact .inl (kept.symm.trans chosen)
      | inr taken => exact .inr (Option.some.inj (taken.symm.trans chosen) ▸ mem_cons_self)

theorem best_mem (found : index.best = some item) : item ∈ index.counts.items :=
  (mem_of_foldl_greater found).resolve_left (by simp)

theorem mem_pairs_parts (mem : p ∈ pairs word) : p.1 ∈ word ∧ p.2 ∈ word :=
  (of_mem_zip mem).imp_right mem_of_mem_tail

theorem Learned.found (learned : Learned tr) (found : tr.index.best = some item) :
    ∃ word ∈ tr.words, item.1 ∈ pairs word ∧ item.1.1 < tr.nextId ∧ item.1.2 < tr.nextId ∧
      tr.merges.get? item.1 = none := by
  obtain ⟨i, inside, occurs⟩ := learned.indexes.occurs (mem_map_of_mem (best_mem found))
  have mem : tr.words.getD i [] ∈ tr.words := by
    rw [getD_eq_getElem _ _ inside]
    exact getElem_mem inside
  refine ⟨_, mem, occurs, ?_, ?_, ?_⟩
  · exact learned.known _ mem _ (mem_pairs_parts occurs).1
  · exact learned.known _ mem _ (mem_pairs_parts occurs).2
  · exact get?_eq_none.mpr fun merged => learned.exhausted _ merged _ mem occurs

theorem Learned.merge (learned : Learned tr) (found : tr.index.best = some item) :
    Learned (tr.merge item.1) := by
  obtain ⟨_, _, _, left, right, fresh⟩ := learned.found found
  obtain ⟨words, freqs, merges, nextId, indexes⟩ := merge_spec learned left right
  have size : (tr.merge item.1).merges.size = tr.merges.size + 1 := by
    rw [merges, size, items_set_of_absent fresh, length_append]
    rfl
  refine ⟨?_, ?_, ?_, ?_, ?_⟩
  · rw [freqs]
    have length : (tr.merge item.1).words.length = tr.words.length := by rw [words, length_map]
    rw [length]
    exact indexes
  · intro word memberAfter id idMember
    rw [words] at memberAfter
    obtain ⟨old, oldMember, rfl⟩ := mem_map.mp memberAfter
    cases mem_applyMerge idMember with
    | inl => omega
    | inr kept =>
      have below := learned.known old oldMember id kept
      omega
  · intro p merged word memberAfter pMember
    rw [words] at memberAfter
    obtain ⟨old, oldMember, rfl⟩ := mem_map.mp memberAfter
    rw [merges, keys_set_of_absent fresh, mem_append, mem_singleton] at merged
    cases merged with
    | inr same =>
      subst same
      exact not_mem_pairs_applyMerge (Nat.ne_of_lt left) (Nat.ne_of_lt right) old pMember
    | inl earlier =>
      -- Its parts are below the new id, so the pair would have been there before.
      obtain ⟨id, held⟩ := Dict.mem_keys.mp earlier
      obtain ⟨_, _, below⟩ := learned.ranked.bounds (get?_eq_some.mp held)
      have next : id < tr.nextId := by
        rw [learned.next]
        exact below
      obtain ⟨old, _⟩ | new | new := mem_pairs_applyMerge pMember
      · exact learned.exhausted p earlier _ oldMember old
      · omega
      · omega
  · rw [merges, items_set_of_absent fresh, learned.next]
    rw [learned.next] at left right
    exact learned.ranked.append_singleton left right
  · rw [nextId, size, learned.next]
    omega

end Merge

theorem Learned.mergeLoop (learned : Learned tr) (least : Int) (steps : Nat) :
    Learned (tr.mergeLoop least steps) := by
  induction steps generalizing tr with
  | zero => exact learned
  | succ _ ih =>
    unfold Training.mergeLoop
    cases found : tr.index.best with
    | none => exact learned
    | some item =>
      show Learned (if item.2 < least then tr else _)
      split
      · exact learned
      · exact ih (learned.merge found)

theorem collapse_eq (cls : CharClasses) (corpus : List Text) :
    collapse cls corpus =
      (corpus.flatMap (findall cls)).foldl (fun counts piece => counts.increase (utf8 piece) 1) .empty := by
  rw [collapse, foldl_flatMap]

theorem collapse_positive (cls : CharClasses) (corpus : List Text) : (collapse cls corpus).Positive := by
  have counted : ∀ (pieces : List Text) (counts : Counter (List UInt8)), counts.Positive →
      Counter.Positive (pieces.foldl (fun counts piece => counts.increase (utf8 piece) 1) counts) := by
    intro pieces
    induction pieces with
    | nil => exact fun counts pos => pos
    | cons _ _ ih =>
      exact fun counts pos => ih _ (pos.increase _ Int.zero_lt_one)
  rw [collapse_eq]
  exact counted _ _ Counter.positive_empty

theorem mem_keys_collapse {word : List UInt8} :
    word ∈ (collapse cls corpus).keys ↔ ∃ text ∈ corpus, ∃ piece ∈ findall cls text, utf8 piece = word := by
  have counted : ∀ (pieces : List Text) (counts : Counter (List UInt8)),
      word ∈ (pieces.foldl (fun counts piece => counts.increase (utf8 piece) 1) counts).keys ↔
        word ∈ counts.keys ∨ ∃ piece ∈ pieces, utf8 piece = word := by
    intro pieces
    induction pieces with
    | nil => simp
    | cons _ _ ih =>
      intro counts
      rw [foldl_cons, ih, Counter.mem_keys_increase, exists_mem_cons_iff, eq_comm,
        or_assoc, or_left_comm]
  rw [collapse_eq, counted]
  simp only [Dict.keys, items_empty, map_nil, not_mem_nil, false_or, mem_flatMap]
  constructor
  · rintro ⟨piece, ⟨text, textMember, mem⟩, same⟩
    exact ⟨text, textMember, piece, mem, same⟩
  · rintro ⟨text, textMember, piece, mem, same⟩
    exact ⟨piece, ⟨text, textMember, mem⟩, same⟩

theorem start_learned {counts : Counter (List UInt8)} (pos : counts.Positive) :
    Learned (Training.start counts) := by
  have sameLength : counts.values.length = (counts.keys.map (map UInt8.toNat)).length := by
    simp [values, Dict.keys]
  have frequent : ∀ i, i < (counts.keys.map (map UInt8.toNat)).length → 0 < counts.values.getD i 0 := by
    intro i inside
    rw [← sameLength] at inside
    rw [getD_eq_getElem _ _ inside]
    obtain ⟨item, mem, valueEq⟩ := mem_map.mp (getElem_mem inside)
    rw [← valueEq]
    exact pos item.1 item.2 (get?_eq_some.mpr mem)
  refine ⟨?_, ?_, fun _ merged => absurd merged (by simp [Training.start, Dict.keys]), trivial, rfl⟩
  · exact Indexes.of_lists sameLength.symm frequent
  · intro word mem id idMember
    obtain ⟨_, _, rfl⟩ := mem_map.mp mem
    obtain ⟨b, _, rfl⟩ := mem_map.mp idMember
    exact b.toNat_lt

/-! ## Special tokens -/

theorem get?_specialIds {text : String} (held : (specialIds nextId specials).get? text = some id) :
    ∃ i, specials[i]? = some text ∧ id = nextId + i := by
  have folded : ∀ (entries : List (String × Nat)) (ids : Dict String Nat),
      (entries.foldl (fun ids special => ids.set special.1 (nextId + special.2)) ids).get? text = some id →
        ids.get? text = some id ∨ ∃ entry ∈ entries, entry.1 = text ∧ id = nextId + entry.2 := by
    intro entries
    induction entries with
    | nil => exact fun _ found => .inl found
    | cons entry _ ih =>
      intro ids found
      cases ih _ found with
      | inr later =>
        obtain ⟨other, mem, facts⟩ := later
        exact .inr ⟨other, mem_cons_of_mem _ mem, facts⟩
      | inl now =>
        rw [get?_set] at now
        split at now
        case isTrue same => exact .inr ⟨entry, mem_cons_self, same.symm, (Option.some.inj now).symm⟩
        case isFalse => exact .inl now
  obtain ⟨entry, mem, textEq, idEq⟩ := (folded _ _ held).resolve_left (by simp)
  exact ⟨entry.2, textEq ▸ mem_zipIdx_iff_getElem?.mp mem, idEq⟩

theorem le_of_mem_specialIds (mem : id ∈ (specialIds nextId specials).values) : nextId ≤ id := by
  obtain ⟨_, itemMember, rfl⟩ := mem_map.mp mem
  obtain ⟨_, _, _⟩ := get?_specialIds (get?_eq_some.mpr itemMember)
  omega

theorem lt_of_mem_specialIds (mem : id ∈ (specialIds nextId specials).values) :
    id < nextId + specials.length := by
  obtain ⟨_, itemMember, rfl⟩ := mem_map.mp mem
  obtain ⟨_, listed, _⟩ := get?_specialIds (get?_eq_some.mpr itemMember)
  obtain ⟨_, -⟩ := List.getElem?_eq_some_iff.mp listed
  omega

theorem mem_keys_specialIds {special : String} (listed : special ∈ specials) :
    special ∈ (specialIds nextId specials).keys := by
  rw [specialIds, mem_keys_foldl_set, zipIdx_map_fst]
  exact .inr listed

theorem specialIds_distinct (nextId : Nat) (specials : List String) :
    (specialIds nextId specials).values.Nodup := by
  refine Nodup.map_on ?_ (specialIds nextId specials).nodupKeys.of_map
  intro first firstMember second secondMember sameId
  obtain ⟨i, firstText, _⟩ := get?_specialIds (get?_eq_some.mpr firstMember)
  obtain ⟨j, secondText, _⟩ := get?_specialIds (get?_eq_some.mpr secondMember)
  obtain rfl : i = j := by omega
  exact Prod.ext (Option.some.inj (firstText.symm.trans secondText)) sameId

/-- Where the loop of `train` ends. -/
def finalTraining (classes : CharClasses) (corpus : List Text) (vocabSize : Int) (specialTokens : List String)
    (minFrequency : Int) : Training :=
  .mergeLoop minFrequency (vocabSize - 256 - specialTokens.length).toNat (.start (collapse classes corpus))

section Train

variable {least : Int}

theorem finalTraining_learned : Learned (finalTraining cls corpus vocabSize specials least) :=
  (start_learned (collapse_positive cls corpus)).mergeLoop _ _

theorem train_inv {tok : BPETokenizer}
    (trained : train cls corpus vocabSize specials least = .ok tok) :
    256 + (specials.length : Int) ≤ vocabSize ∧ tok.classes = cls ∧
      tok.merges = (finalTraining cls corpus vocabSize specials least).merges ∧
      tok.specialTokens =
        specialIds (finalTraining cls corpus vocabSize specials least).nextId specials := by
  simp only [train] at trained
  split at trained
  case isTrue => cases trained
  case isFalse =>
    split at trained
    case h_1 => cases trained
    case h_2 =>
      cases trained
      exact ⟨by omega, rfl, rfl, rfl⟩

theorem train_spec (cls : CharClasses) (corpus : List Text) (least : Int)
    (accepted : 256 + (specials.length : Int) ≤ vocabSize) :
    ∃ tok, train cls corpus vocabSize specials least = .ok tok ∧
      tok.classes = cls ∧ Spells tok.merges tok.specialTokens tok.vocab := by
  have learned := @finalTraining_learned cls corpus vocabSize specials least
  obtain ⟨vocab, rebuilt, spells⟩ := rebuild_spells learned.ranked
    (fun id mem => learned.next ▸ le_of_mem_specialIds mem) (specialIds_distinct _ specials)
  refine ⟨⟨cls, _, _, vocab, rebuilt⟩, ?_, rfl, spells⟩
  simp only [train]
  rw [if_neg (by omega)]
  split
  case h_1 none => exact absurd (none.symm.trans rebuilt) (by simp)
  case h_2 other some =>
    obtain rfl : other = vocab := Option.some.inj (some.symm.trans rebuilt)
    rfl

theorem train_spells {tok : BPETokenizer}
    (trained : train cls corpus vocabSize specials least = .ok tok) :
    Spells tok.merges tok.specialTokens tok.vocab := by
  obtain ⟨same, trainedSame, -, spells⟩ := train_spec cls corpus least (train_inv trained).1
  obtain rfl : same = tok := Except.ok.inj (trainedSame.symm.trans trained)
  exact spells

end Train

end Nanoserve.Verified
