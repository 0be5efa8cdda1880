import Mathlib.Algebra.Order.Ring.Int
import Mathlib.Data.List.MinMax
import Mathlib.Data.Prod.Lex
import Nanoserve.Verified.Training

/-! # Training by recounting

The naive algorithm counts every pair again before each merge and takes the greatest by count and
then by itself.
-/

namespace Nanoserve.Verified

open Lib Model List

variable {items : List ((Nat × Nat) × Int)} {best : Option ((Nat × Nat) × Int)} {tr : Training}

/-- How often the pair occurs in the words, each weighted by its frequency. -/
def frequency (words : List (List Nat)) (freqs : List Int) (p : Nat × Nat) : Int :=
  ((words.zip freqs).map fun item => item.2 * ((pairs item.1).count p : Int)).sum

/-- The greatest by `(count, pair)` of all the pairs that occur. -/
def commonest (words : List (List Nat)) (freqs : List Int) : Option (Nat × Nat) :=
  letI : Preorder Int := Int.instLinearOrder.toPreorder
  (words.flatMap pairs).argmax fun p => toLex (frequency words freqs p, toLex p)

/-- At most as many merges as the first argument says, from the id `nextId` on. -/
def naiveMerges (minFrequency : Int) (freqs : List Int) : Nat → Nat → List (List Nat) → List ((Nat × Nat) × Nat)
  | 0, _, _ => []
  | left + 1, nextId, words =>
    match commonest words freqs with
    | none => []
    | some pair =>
      if frequency words freqs pair < minFrequency then []
      else (pair, nextId) :: naiveMerges minFrequency freqs left (nextId + 1) (words.map (applyMerge pair nextId))

theorem frequency_eq_sum {words : List (List Nat)} {freqs : List Int} (enough : words.length ≤ freqs.length)
    (p : Nat × Nat) :
    frequency words freqs p =
      ∑ i ∈ Finset.range words.length, freqs.getD i 0 * ((pairs (words.getD i [])).count p : Int) := by
  induction words generalizing freqs with
  | nil => rfl
  | cons _ _ ih =>
    cases freqs with
    | nil => simp at enough
    | cons =>
      have rest := ih (Nat.le_of_succ_le_succ enough)
      rw [length_cons, Finset.sum_range_succ']
      simp only [frequency, zip_cons_cons, map_cons, sum_cons] at rest ⊢
      rw [rest, add_comm]
      rfl

section Learned

section

variable (learned : Learned tr)
include learned

theorem Learned.enough : tr.words.length ≤ tr.freqs.length := by
  by_contra short
  have beyond : tr.freqs.getD tr.freqs.length 0 = 0 := getD_eq_default _ _ (Nat.le_refl _)
  have pos := learned.indexes.frequent tr.freqs.length (by omega)
  omega

theorem Learned.count_eq (p : Nat × Nat) :
    tr.index.counts.count p = frequency tr.words tr.freqs p := by
  rw [frequency_eq_sum learned.enough]
  exact learned.indexes.counts p

theorem Learned.mem_keys {p : Nat × Nat} :
    p ∈ tr.index.counts.keys ↔ p ∈ tr.words.flatMap pairs := by
  constructor
  · intro counted
    obtain ⟨i, inside, occurs⟩ := learned.indexes.occurs counted
    rw [getD_eq_getElem _ _ inside] at occurs
    exact mem_flatMap.mpr ⟨_, getElem_mem inside, occurs⟩
  · intro occurs
    obtain ⟨_, mem, occurs⟩ := mem_flatMap.mp occurs
    obtain ⟨i, inside, rfl⟩ := getElem_of_mem mem
    rw [learned.indexes.positive.mem_keys, learned.indexes.counts]
    refine Finset.sum_pos' (fun j below => ?_) ⟨i, Finset.mem_range.mpr inside, ?_⟩
    · exact Int.mul_nonneg (learned.indexes.frequent j (Finset.mem_range.mp below)).le (Int.natCast_nonneg _)
    · rw [getD_eq_getElem _ _ inside]
      exact Int.mul_pos (learned.indexes.frequent i inside) (Int.natCast_pos.mpr (count_pos_iff.mpr occurs))

theorem Learned.counts_exact (p : Nat × Nat) :
    tr.index.counts.get? p =
      if p ∈ tr.words.flatMap pairs then some (frequency tr.words tr.freqs p) else none := by
  split
  case isTrue occurs =>
    obtain ⟨_, held⟩ := Dict.mem_keys.mp (learned.mem_keys.mpr occurs)
    have counted := learned.count_eq p
    rw [Counter.count, held, Option.getD_some] at counted
    rw [held, counted]
  case isFalse absent => exact Dict.get?_eq_none.mpr fun counted => absent (learned.mem_keys.mp counted)

theorem Learned.places_exact (p : Nat × Nat) (i : Nat) :
    i ∈ tr.index.placesOf p ↔ ∃ word, tr.words[i]? = some word ∧ p ∈ pairs word := by
  rw [learned.indexes.places, getD_eq_getElem?_getD]
  cases found : tr.words[i]? with
  | none => simp [pairs]
  | some => simp

end

end Learned

def comparedBy (item : (Nat × Nat) × Int) : Int ×ₗ (Nat ×ₗ Nat) := toLex (item.2, toLex item.1)

theorem below_iff {first second : (Nat × Nat) × Int} :
    PairIndex.below first second = true ↔ comparedBy first < comparedBy second := by
  simp only [comparedBy, Prod.Lex.toLex_lt_toLex, PairIndex.below, Bool.or_eq_true, Bool.and_eq_true, decide_eq_true_eq]

theorem comparedBy_injective : Function.Injective comparedBy := by
  intro first second same
  simp only [comparedBy, EmbeddingLike.apply_eq_iff_eq, Prod.mk.injEq] at same
  exact Prod.ext same.2 same.1

theorem foldl_greater_greatest {greatest : (Nat × Nat) × Int}
    (found : items.foldl PairIndex.greater best = some greatest) :
    (∀ item ∈ best, comparedBy item ≤ comparedBy greatest) ∧ ∀ item ∈ items, comparedBy item ≤ comparedBy greatest := by
  induction items generalizing best with
  | nil =>
    refine ⟨fun item mem => ?_, fun _ mem => absurd mem not_mem_nil⟩
    obtain rfl : item = greatest := Option.some.inj (mem.symm.trans found)
    exact le_refl _
  | cons first _ ih =>
    obtain ⟨soFar, later⟩ := ih found
    cases best with
    | none => exact ⟨by simp, forall_mem_cons.mpr ⟨soFar first rfl, later⟩⟩
    | some old =>
      simp only [PairIndex.greater] at soFar
      split at soFar
      case isTrue below =>
        have higher := below_iff.mp below
        refine ⟨fun item mem => ?_, forall_mem_cons.mpr ⟨soFar first rfl, later⟩⟩
        obtain rfl : old = item := Option.some.inj mem
        exact higher.le.trans (soFar first rfl)
      case isFalse notBelow =>
        have higher := not_lt.mp fun lower => notBelow (below_iff.mpr lower)
        exact ⟨soFar, forall_mem_cons.mpr ⟨higher.trans (soFar old rfl), later⟩⟩

theorem eq_nil_of_foldl_greater (nothing : items.foldl PairIndex.greater best = none) : best = none ∧ items = [] := by
  induction items generalizing best with
  | nil => exact ⟨nothing, rfl⟩
  | cons _ _ ih =>
    have kept := (ih nothing).1
    cases best with
    | none => cases kept
    | some =>
      simp only [PairIndex.greater] at kept
      split at kept
      · cases kept
      · cases kept

theorem Learned.best_eq (learned : Learned tr) :
    tr.index.best =
      (commonest tr.words tr.freqs).map fun p => (p, frequency tr.words tr.freqs p) := by
  have counted : ∀ p n, (p, n) ∈ tr.index.counts.items ↔
      p ∈ tr.words.flatMap pairs ∧ n = frequency tr.words tr.freqs p := by
    intro p n
    rw [← Dict.get?_eq_some, learned.counts_exact]
    split <;> simp_all [eq_comm]
  cases found : tr.index.best with
  | none =>
    have nothing : tr.words.flatMap pairs = [] := by
      refine eq_nil_iff_forall_not_mem.mpr fun p occurs => ?_
      have mem := (counted p _).mpr ⟨occurs, rfl⟩
      rw [(eq_nil_of_foldl_greater found).2] at mem
      cases mem
    rw [commonest, nothing]
    rfl
  | some greatest =>
    obtain ⟨pair, seen⟩ := greatest
    obtain ⟨occurs, rfl⟩ := (counted pair seen).mp (best_mem found)
    have most : ∀ p ∈ tr.words.flatMap pairs, comparedBy (p, frequency tr.words tr.freqs p) ≤
        comparedBy (pair, frequency tr.words tr.freqs pair) := fun p other =>
      (foldl_greater_greatest found).2 _ ((counted p _).mpr ⟨other, rfl⟩)
    have chosen : commonest tr.words tr.freqs = some pair := by
      refine argmax_eq_some_iff.mpr ⟨occurs, most, fun p other atLeast => ?_⟩
      obtain rfl : p = pair := congrArg Prod.fst (comparedBy_injective (le_antisymm (most p other) atLeast))
      exact Nat.le_refl _
    rw [chosen]
    rfl

theorem mergeLoop_naive (learned : Learned tr) (least : Int) (steps : Nat) :
    (tr.mergeLoop least steps).merges.items =
      tr.merges.items ++ naiveMerges least tr.freqs steps tr.nextId tr.words := by
  induction steps generalizing tr with
  | zero => exact (append_nil _).symm
  | succ _ ih =>
    unfold Training.mergeLoop naiveMerges
    have next := learned.best_eq
    cases chosen : commonest tr.words tr.freqs with
    | none =>
      rw [chosen] at next
      rw [next]
      exact (append_nil _).symm
    | some =>
      rw [chosen] at next
      rw [next]
      dsimp only [Option.map_some]
      split
      · exact (append_nil _).symm
      · obtain ⟨_, _, _, left, right, fresh⟩ := learned.found next
        obtain ⟨words, freqs, merges, nextId, -⟩ := merge_spec learned left right
        rw [ih (learned.merge next), words, freqs, merges, nextId, Dict.items_set_of_absent fresh,
          append_assoc, singleton_append]

/-- At the start of every merge step the counts and the index are those of the current words. -/
theorem incremental_training_exact (classes : CharClasses) (corpus : List Text) (vocabSize : Int)
    (specialTokens : List String) (minFrequency : Int) :
    (∀ step, let training := Training.mergeLoop minFrequency step (.start (collapse classes corpus))
      (∀ p, training.index.counts.get? p =
        if p ∈ training.words.flatMap pairs then some (frequency training.words training.freqs p) else none) ∧
      ∀ p ∈ training.index.counts.keys, ∀ i,
        i ∈ training.index.placesOf p ↔ ∃ word, training.words[i]? = some word ∧ p ∈ pairs word) ∧
    ∀ tok, BPETokenizer.train classes corpus vocabSize specialTokens minFrequency = .ok tok →
      tok.merges.items = naiveMerges minFrequency (collapse classes corpus).values
        (vocabSize - 256 - specialTokens.length).toNat 256
        ((collapse classes corpus).keys.map (List.map UInt8.toNat)) := by
  have started := start_learned (collapse_positive classes corpus)
  refine ⟨fun step => ?_, fun tok trained => ?_⟩
  · have learned := started.mergeLoop minFrequency step
    exact ⟨learned.counts_exact, fun p _ i => learned.places_exact p i⟩
  · rw [(train_inv trained).2.2.1]
    exact mergeLoop_naive started minFrequency _

/-- Pairs that overlap themselves, and a tie in which the greater pair comes first. -/
theorem incremental_training_exact_ties :
    (∃ tok, BPETokenizer.train asciiClasses ["aaa abab".toList] 260 [END_OF_TEXT] 1 = .ok tok ∧
      tok.merges.items = naiveMerges 1 (collapse asciiClasses ["aaa abab".toList]).values 3 256
        ((collapse asciiClasses ["aaa abab".toList]).keys.map (List.map UInt8.toNat))) ∧
      naiveMerges 1 (collapse asciiClasses ["aaa abab".toList]).values 3 256
        ((collapse asciiClasses ["aaa abab".toList]).keys.map (List.map UInt8.toNat)) =
        [((97, 98), 256), ((97, 97), 257), ((257, 97), 258)] := by
  refine ⟨?_, by decide +kernel⟩
  obtain ⟨tok, trained, -⟩ := train_spec asciiClasses ["aaa abab".toList] 1
    (show 256 + (([END_OF_TEXT].length : Nat) : Int) ≤ 260 by decide)
  exact ⟨tok, trained, (incremental_training_exact _ _ _ _ _).2 tok trained⟩

end Nanoserve.Verified
