import Nanoserve.Verified.Merging

/-! # The layout of the ids

A trained vocabulary is numbered without gaps.
-/

namespace Nanoserve.Verified

open Lib Model Dict List
open BPETokenizer (train)

theorem isSome_update {vocab : Vocab} {changed id : Nat} {bytes : List UInt8} :
    (Function.update vocab changed (some bytes) id).isSome ↔ id = changed ∨ (vocab id).isSome := by
  by_cases same : id = changed
  · simp [same]
  · simp [same]

theorem isSome_foldlM_addMerge {merges : List ((Nat × Nat) × Nat)} {vocab built : Vocab}
    (folded : merges.foldlM addMerge vocab = some built) (id : Nat) :
    (built id).isSome ↔ (vocab id).isSome ∨ id ∈ merges.map Prod.snd := by
  induction merges generalizing vocab with
  | nil => grind
  | cons merge _ ih =>
    rw [foldlM_cons] at folded
    cases added : addMerge vocab merge with
    | none => grind
    | some =>
      rw [added] at folded
      rw [ih folded, map_cons, mem_cons]
      simp only [addMerge] at added
      split at added
      case h_1 =>
        obtain rfl := Option.some.inj added
        rw [isSome_update, or_assoc, or_left_comm]
      case h_2 => cases added

theorem isSome_foldl_special (specials : List (String × Nat)) (vocab : Vocab) (id : Nat) :
    (specials.foldl (fun (vocab : Vocab) special => Function.update vocab special.2 (some (utf8 special.1.toList)))
      vocab id).isSome ↔ (vocab id).isSome ∨ id ∈ specials.map Prod.snd := by
  induction specials generalizing vocab with
  | nil => simp
  | cons _ _ ih =>
    rw [foldl_cons, ih, isSome_update, map_cons, mem_cons, or_assoc, or_left_comm]

theorem isSome_vocab (tok : BPETokenizer) (id : Nat) :
    (tok.vocab id).isSome ↔ id ∈ vocabIds tok.merges tok.specialTokens := by
  have rebuilt := tok.rebuilt
  simp only [rebuild, Option.map_eq_some_iff] at rebuilt
  obtain ⟨_, folded, table⟩ := rebuilt
  rw [← table, isSome_foldl_special, isSome_foldlM_addMerge folded, vocabIds, mem_append, mem_append]
  simp [byteVocab, values]

theorem Ranked.ids {next : Nat} {merges : List ((Nat × Nat) × Nat)} (ranked : Ranked next merges) :
    merges.map Prod.snd = range' next merges.length := by
  induction merges generalizing next with
  | nil => rfl
  | cons _ _ ih =>
    obtain ⟨idEq, -, -, rest⟩ := ranked
    rw [map_cons, length_cons, range'_succ, ih rest, idEq]

theorem items_specialIds {specials : List String} (distinct : specials.Nodup) (nextId : Nat) :
    (Training.specialIds nextId specials).items = specials.zipIdx.map fun special => (special.1, nextId + special.2) := by
  rw [Training.specialIds, items_foldl_set .empty (by simp [Dict.keys]) (by simpa using distinct)]
  rfl

theorem keys_specialIds {specials : List String} (distinct : specials.Nodup) (nextId : Nat) :
    (Training.specialIds nextId specials).keys = specials := by
  rw [Dict.keys, items_specialIds distinct, map_map]
  exact zipIdx_map_fst 0 specials

theorem values_specialIds {specials : List String} (distinct : specials.Nodup) (nextId : Nat) :
    (Training.specialIds nextId specials).values = range' nextId specials.length := by
  have shifted : (Prod.snd ∘ fun special : String × Nat => (special.1, nextId + special.2)) =
      (nextId + ·) ∘ Prod.snd := rfl
  rw [values, items_specialIds distinct, map_map, shifted, ← map_map, zipIdx_map_snd,
    map_add_range', Nat.add_zero]

/-- The pairs `train` merges, one a step. -/
def mergedPairs (minFrequency : Int) : Nat → Training → List (Nat × Nat)
  | 0, _ => []
  | left + 1, training =>
    match training.index.best with
    | none => []
    | some (pair, seen) =>
      if seen < minFrequency then [] else pair :: mergedPairs minFrequency left (training.merge pair)

theorem length_mergedPairs_le (least : Int) (steps : Nat) (tr : Training) :
    (mergedPairs least steps tr).length ≤ steps := by
  fun_induction mergedPairs least steps tr with
  | case4 => simpa using by assumption
  | _ => simp

theorem keys_mergeLoop {tr : Training} (learned : Learned tr) (least : Int) (steps : Nat) :
    (tr.mergeLoop least steps).merges.keys =
      tr.merges.keys ++ mergedPairs least steps tr := by
  induction steps generalizing tr with
  | zero => exact (append_nil _).symm
  | succ _ ih =>
    unfold Training.mergeLoop mergedPairs
    cases found : tr.index.best with
    | none => exact (append_nil _).symm
    | some =>
      dsimp only
      split
      · exact (append_nil _).symm
      · obtain ⟨_, _, _, left, right, fresh⟩ := learned.found found
        obtain ⟨-, -, merges, -, -⟩ := merge_spec learned left right
        rw [ih (learned.merge found), merges, keys_set_of_absent fresh, append_assoc,
          singleton_append]

theorem infix_of_mem_pairs {p : Nat × Nat} {word : List Nat} (occurs : p ∈ pairs word) :
    ∃ before after, word = before ++ p.1 :: p.2 :: after := by
  induction word with
  | nil => simp [pairs] at occurs
  | cons _ word =>
    cases mem_pairs_cons.mp occurs with
    | inl front =>
      obtain ⟨_, head, rfl⟩ := front
      cases word with
      | nil => cases head
      | cons _ word =>
        obtain rfl := Option.some.inj head
        exact ⟨[], word, rfl⟩
    | inr => grind

variable {tok : BPETokenizer}

theorem spelled_part {p : Nat × Nat} {word : List Nat} {left right whole : List UInt8} (occurs : p ∈ pairs word)
    (leftEq : tok.vocab p.1 = some left) (rightEq : tok.vocab p.2 = some right) (spelled : tok.bytes word = some whole) :
    left ++ right <:+: whole := by
  obtain ⟨_, after, rfl⟩ := infix_of_mem_pairs occurs
  rw [bytes_append, Option.bind_eq_some_iff] at spelled
  obtain ⟨_, -, rest⟩ := spelled
  rw [bytes_cons, bytes_cons, leftEq, rightEq] at rest
  cases back : tok.bytes after with
  | none => simp [back] at rest
  | some => grind

-- By induction on the merges still to come: the words spell pre-tokens, in the
-- vocabulary that training ends with.
theorem mergeLoop_parts (spells : Spells tok.merges tok.specialTokens tok.vocab) {Source : List UInt8 → Prop}
    {tr : Training} (learned : Learned tr) (least : Int) (steps : Nat)
    (final : (tr.mergeLoop least steps).merges = tok.merges)
    (words : ∀ word ∈ tr.words, ∃ whole, tok.bytes word = some whole ∧ Source whole)
    (parts : ∀ merge ∈ tr.merges.items, ∃ bytes whole,
      tok.vocab merge.2 = some bytes ∧ Source whole ∧ bytes <:+: whole) :
    ∀ merge ∈ tok.merges.items, ∃ bytes whole, tok.vocab merge.2 = some bytes ∧ Source whole ∧ bytes <:+: whole := by
  induction steps generalizing tr with
  | zero => exact final ▸ parts
  | succ steps ih =>
    unfold Training.mergeLoop at final
    cases found : tr.index.best with
    | none => grind
    | some item =>
      rw [found] at final
      dsimp only at final
      split at final
      · exact final ▸ parts
      · obtain ⟨word, mem, occurs, left, right, fresh⟩ := learned.found found
        obtain ⟨wordsAfter, -, merges, -, -⟩ := merge_spec learned left right
        obtain ⟨_, items, -⟩ := mergeLoop_replays (learned.merge found) least steps
        -- The merge is there at the end, so the vocabulary spells it.
        have kept : tok.merges.get? item.1 = some tr.nextId := by
          rw [get?_eq_some, ← final, items, merges, items_set_of_absent fresh]
          simp
        obtain ⟨_, _, leftEq, rightEq, joined⟩ := spells.merge _ _ kept
        refine ih (learned.merge found) final ?_ ?_
        · intro word memberAfter
          rw [wordsAfter] at memberAfter
          obtain ⟨old, oldMember, rfl⟩ := mem_map.mp memberAfter
          rw [bytes_applyMerge leftEq rightEq joined]
          exact words old oldMember
        · rw [merges, items_set_of_absent fresh]
          refine forall_mem_append.mpr ⟨parts, forall_mem_singleton.mpr ?_⟩
          obtain ⟨whole, spelled, source⟩ := words word mem
          exact ⟨_, whole, joined, source, spelled_part occurs leftEq rightEq spelled⟩

/-! ## Trained vocabularies -/

section Train

variable {cls : CharClasses} {corpus : List Text} {vocabSize : Int} {specials : List String}
  {least : Int}

theorem train_vocabIds (distinct : specials.Nodup)
    (trained : train cls corpus vocabSize specials least = .ok tok) :
    vocabIds tok.merges tok.specialTokens = range (256 + tok.merges.size + specials.length) := by
  have next : (finalTraining cls corpus vocabSize specials least).nextId = 256 + tok.merges.size := by
    rw [(train_inv trained).2.2.1]
    exact finalTraining_learned.next
  have merged : tok.merges.values = range' 256 tok.merges.size := (train_ranked trained).ids
  have join : ∀ m n, range m ++ range' m n = range (m + n) := by
    intro m n
    rw [range_eq_range', range_eq_range', ← range'_append_1, Nat.zero_add]
  rw [vocabIds, merged, (train_inv trained).2.2.2, values_specialIds distinct, next, join, join]

theorem train_vocabSize (distinct : specials.Nodup)
    (trained : train cls corpus vocabSize specials least = .ok tok) :
    tok.vocabSize = 256 + tok.merges.size + specials.length := by
  rw [BPETokenizer.vocabSize, train_vocabIds distinct trained, nodup_range.dedup, length_range]

section

variable (trained : train cls corpus vocabSize specials least = .ok tok)
include trained

theorem train_keys :
    tok.merges.keys = mergedPairs least (vocabSize - 256 - specials.length).toNat
      (.start (collapse cls corpus)) := by
  rw [(train_inv trained).2.2.1]
  exact keys_mergeLoop (start_learned (collapse_positive cls corpus)) least _

theorem train_size_le :
    256 + (tok.merges.size : Int) + specials.length ≤ vocabSize := by
  have accepted := (train_inv trained).1
  have few := length_mergedPairs_le least (vocabSize - 256 - specials.length).toNat
    (.start (collapse cls corpus))
  rw [← train_keys trained, Dict.keys, length_map] at few
  have merges : tok.merges.size = tok.merges.items.length := rfl
  omega

theorem train_ids_lt
    {id : Nat} (mem : id ∈ vocabIds tok.merges tok.specialTokens) : (id : Int) < vocabSize := by
  have size := train_size_le trained
  rw [vocabIds, mem_append, mem_append] at mem
  rcases mem with (byte | merged) | special
  · have small := mem_range.mp byte
    omega
  · rw [values, (train_ranked trained).ids, mem_range'_1] at merged
    have merges : tok.merges.size = tok.merges.items.length := rfl
    omega
  · rw [(train_inv trained).2.2.2] at special
    have small := lt_of_mem_specialIds special
    have next := (@finalTraining_learned cls corpus vocabSize specials least).next
    rw [← (train_inv trained).2.2.1] at next
    omega

theorem train_parts :
    ∀ merge ∈ tok.merges.items, ∃ bytes whole, tok.vocab merge.2 = some bytes ∧
      whole ∈ (collapse cls corpus).keys ∧ bytes <:+: whole := by
  have spells := train_spells trained
  refine mergeLoop_parts spells (start_learned (collapse_positive cls corpus)) least _
    (train_inv trained).2.2.1.symm (fun word mem => ?_) (fun _ mem => absurd mem not_mem_nil)
  obtain ⟨piece, counted, rfl⟩ := mem_map.mp mem
  exact ⟨piece, bytes_map_toNat spells piece, counted⟩

end

end Train

/-- No pair is merged twice, a merge comes after its parts, the ids are numbered from 0 without gaps
and are no more than were asked for. -/
theorem trained_vocabulary_wellformed (classes : CharClasses) (corpus : List Text) (vocabSize : Int)
    (specialTokens : List String) (minFrequency : Int) (distinct : specialTokens.Nodup) {tok : BPETokenizer}
    (trained : train classes corpus vocabSize specialTokens minFrequency = .ok tok) :
    (tok.merges.keys = mergedPairs minFrequency (vocabSize - 256 - specialTokens.length).toNat
        (.start (collapse classes corpus)) ∧
      (mergedPairs minFrequency (vocabSize - 256 - specialTokens.length).toNat
        (.start (collapse classes corpus))).Nodup) ∧
    (∀ pair id, tok.merges.get? pair = some id → pair.1 < id ∧ pair.2 < id) ∧
    vocabIds tok.merges tok.specialTokens = List.range tok.vocabSize ∧
    (∀ id, (tok.vocab id).isSome ↔ id < tok.vocabSize) ∧
    (tok.vocabSize : Int) ≤ vocabSize ∧
    ∀ pair id, tok.merges.get? pair = some id → ∃ bytes, tok.vocab id = some bytes ∧
      ∃ text ∈ corpus, ∃ pretoken ∈ findall classes text, bytes <:+: utf8 pretoken := by
  have keys := train_keys trained
  have size := train_vocabSize distinct trained
  have ids : vocabIds tok.merges tok.specialTokens = List.range tok.vocabSize := by
    rw [train_vocabIds distinct trained, size]
  refine ⟨⟨keys, keys ▸ tok.merges.nodup_keys⟩, fun pair id held => ?_, ids, fun id => ?_, ?_, fun pair id held => ?_⟩
  · obtain ⟨left, right, -⟩ := (train_ranked trained).bounds (Dict.get?_eq_some.mp held)
    exact ⟨left, right⟩
  · rw [isSome_vocab, ids, List.mem_range]
  · have most := train_size_le trained
    omega
  · obtain ⟨bytes, whole, spelled, counted, part⟩ := train_parts trained _ (Dict.get?_eq_some.mp held)
    obtain ⟨text, textMember, pretoken, member, rfl⟩ := mem_keys_collapse.mp counted
    exact ⟨bytes, spelled, text, textMember, pretoken, member, part⟩

/-- Training stops at the frequency floor, four merges short of what was asked for. -/
theorem trained_vocabulary_wellformed_floor :
    (∃ tok, train asciiClasses ["the cat the hat".toList] 265 [END_OF_TEXT, "<|pad|>"] 2 = .ok tok ∧
      [END_OF_TEXT, "<|pad|>"].Nodup ∧ vocabIds tok.merges tok.specialTokens = List.range tok.vocabSize ∧
      (tok.vocabSize : Int) ≤ 265) ∧
      Yields (train asciiClasses ["the cat the hat".toList] 265 [END_OF_TEXT, "<|pad|>"] 2) fun tok =>
        tok.merges.items = [((116, 104), 256), ((256, 101), 257), ((97, 116), 258)] ∧
          tok.specialTokens.items = [(END_OF_TEXT, 259), ("<|pad|>", 260)] := by
  refine ⟨?_, by decide +kernel⟩
  obtain ⟨tok, trained, -⟩ := train_spec asciiClasses ["the cat the hat".toList] 2
    (show 256 + (([END_OF_TEXT, "<|pad|>"].length : Nat) : Int) ≤ 265 by decide)
  obtain ⟨-, -, ids, -, size, -⟩ := trained_vocabulary_wellformed _ _ _ _ _ (by decide) trained
  exact ⟨tok, trained, by decide, ids, size⟩

end Nanoserve.Verified
