import Nanoserve.Model.Persistence
import Nanoserve.Verified.Layout
import Nanoserve.Verified.Lossless

/-! # Special tokens and untrusted text

The special tokens are numbered after the bytes and the merges.
-/

namespace Nanoserve.Verified

open Lib Model Dict List
open BPETokenizer (load train)

variable {tok : BPETokenizer}

theorem mem_applyMerges {merges : List ((Nat × Nat) × Nat)} {ids : List Nat} {id : Nat}
    (mem : id ∈ applyMerges merges ids) : id ∈ ids ∨ id ∈ merges.map Prod.snd := by
  induction merges generalizing ids with
  | nil => exact .inl mem
  | cons _ _ ih =>
    rw [map_cons, mem_cons]
    cases ih mem with
    | inr later => exact .inr (.inr later)
    | inl now =>
      cases mem_applyMerge now with
      | inl new => exact .inr (.inl new)
      | inr old => exact .inl old

theorem lt_of_mem_encodePiece (ranked : Ranked 256 tok.merges.items) {piece : List UInt8} {id : Nat}
    (mem : id ∈ tok.encodePiece piece) : id < 256 + tok.merges.size := by
  rw [encodePiece_eq ranked] at mem
  cases mem_applyMerges mem with
  | inl byte =>
    obtain ⟨b, _, rfl⟩ := mem_map.mp byte
    have small := b.toNat_lt
    omega
  | inr merged =>
    rw [ranked.ids, mem_range'_1] at merged
    exact merged.2

def Above (tok : BPETokenizer) : Prop := ∀ id ∈ tok.specialTokens.values, 256 + tok.merges.size ≤ id

theorem not_special_of_mem_encodeOrdinary (ranked : Ranked 256 tok.merges.items) (above : Above tok) {text : Text}
    {id : Nat} (mem : id ∈ tok.encodeOrdinary text) : id ∉ tok.specialTokens.values := by
  obtain ⟨_, _, inPiece⟩ := mem_flatMap.mp mem
  have below := lt_of_mem_encodePiece ranked inPiece
  intro special
  have high := above id special
  omega

/-- The spellings in a text, left to right: where several stand, the one listed first. -/
def occurrences (specials : List Text) : Nat → Text → List Text
  | _, [] => []
  | skip + 1, _ :: text => occurrences specials skip text
  | 0, c :: text =>
    match specials.find? fun special => special.isPrefixOf (c :: text) with
    | some special => special :: occurrences specials (special.length - 1) text
    | none => occurrences specials 0 text

theorem occurrences_skip (specials : List Text) (skip : Nat) (text : Text) :
    occurrences specials skip text = occurrences specials 0 (text.drop skip) := by
  induction text generalizing skip with
  | nil => simp [occurrences]
  | cons _ _ ih =>
    cases skip with
    | zero => rfl
    | succ skip => exact ih skip

section Specials

variable {specials : List Text} (ne : ∀ special ∈ specials, special ≠ [])

include ne

theorem specialAt_eq (mustAdvance : Bool) (text : Text) :
    specialAt specials mustAdvance text = specials.find? fun special => special.isPrefixOf text := by
  unfold specialAt
  induction specials with
  | nil => rfl
  | cons special =>
    obtain ⟨here, _⟩ := forall_mem_cons.mp ne
    cases special with
    | nil => exact absurd rfl here
    | cons => grind

theorem occurrences_some {text special : Text} (found : specialAt specials false text = some special) :
    special ∈ specials ∧ special ≠ [] ∧
      occurrences specials 0 text = special :: occurrences specials 0 (text.drop special.length) := by
  rw [specialAt_eq ne] at found
  have mem := mem_of_find?_eq_some found
  refine ⟨mem, ne special mem, ?_⟩
  cases text with
  | nil =>
    have spelled := find?_some found
    cases special with
    | nil => exact absurd rfl (ne [] mem)
    | cons => simp at spelled
  | cons =>
    cases special with
    | nil => exact absurd rfl (ne [] mem)
    | cons =>
      rw [occurrences, found]
      dsimp only
      rw [occurrences_skip]
      rfl

theorem occurrences_none {c : Char} {text : Text} (absent : specialAt specials false (c :: text) = none) :
    occurrences specials 0 (c :: text) = occurrences specials 0 text := by
  rw [specialAt_eq ne] at absent
  rw [occurrences, absent]

end Specials

/-! ## Encoding with special tokens -/

def encodeChunk (tok : BPETokenizer) (chunk : Text) : List Nat :=
  if chunk.isEmpty then []
  else
    match tok.specialTokens.get? (String.ofList chunk) with
    | some id => [id]
    | none => tok.encodeOrdinary chunk

/-- Whether an id is that of a special token. -/
def isSpecial (tok : BPETokenizer) (id : Nat) : Bool := decide (id ∈ tok.specialTokens.values)

theorem filter_encodeOrdinary (ranked : Ranked 256 tok.merges.items) (above : Above tok) (text : Text) :
    (tok.encodeOrdinary text).filter (isSpecial tok) = [] := by
  rw [filter_eq_nil_iff]
  intro id mem
  simpa [isSpecial] using not_special_of_mem_encodeOrdinary ranked above mem

def spellings (tok : BPETokenizer) : List Text := tok.specialTokens.keys.map String.toList

theorem mem_spellings {text : Text} : text ∈ spellings tok ↔ ∃ id, tok.specialTokens.get? (String.ofList text) = some id := by
  rw [← Dict.mem_keys, spellings, mem_map]
  constructor
  · rintro ⟨_, mem, rfl⟩
    rw [String.ofList_toList]
    exact mem
  · intro mem
    exact ⟨_, mem, String.toList_ofList⟩

theorem filter_encodeChunk_special {special : Text} (mem : special ∈ spellings tok) (ne : special ≠ []) :
    ((encodeChunk tok special).filter (isSpecial tok)).map some = [tok.specialTokens.get? (String.ofList special)] := by
  obtain ⟨id, held⟩ := mem_spellings.mp mem
  have value : isSpecial tok id = true := by
    rw [isSpecial, decide_eq_true_eq]
    exact mem_map_of_mem (get?_eq_some.mp held)
  simp [encodeChunk, ne, held, value]

section

variable (ranked : Ranked 256 tok.merges.items)
include ranked

theorem filter_encodeChunk_between (above : Above tok) {chunk text : Text}
    (ne : ∀ special ∈ spellings tok, special ≠ [])
    (between : chunk = [] ∨ specialAt (spellings tok) false (chunk ++ text) = none) :
    (encodeChunk tok chunk).filter (isSpecial tok) = [] := by
  unfold encodeChunk
  split
  · rfl
  case isFalse =>
    split
    case h_2 => exact filter_encodeOrdinary ranked above chunk
    case h_1 id held =>
      -- A special token stands at the front of itself.
      have absent := between.resolve_left (by grind)
      rw [specialAt_eq ne, find?_eq_none] at absent
      exact absurd (by simp) (absent chunk (mem_spellings.mpr ⟨id, held⟩))

-- By induction on the rounds left, which are more than the characters left.
theorem filter_splitFrom (above : Above tok)
    (ne : ∀ special ∈ spellings tok, special ≠ []) {left : Nat} {chunk text : Text} (enough : text.length < left)
    (between : chunk = [] ∨ specialAt (spellings tok) false (chunk ++ text) = none) :
    (((splitFrom (spellings tok) left false chunk text).flatMap (encodeChunk tok)).filter (isSpecial tok)).map some =
      (occurrences (spellings tok) 0 text).map fun special => tok.specialTokens.get? (String.ofList special) := by
  induction left generalizing chunk text with
  | zero => omega
  | succ left ih =>
    have ordinary := filter_encodeChunk_between ranked above ne between
    unfold splitFrom
    cases found : specialAt (spellings tok) false text with
    | some special =>
      obtain ⟨mem, advances, next⟩ := occurrences_some ne found
      have shorter : (text.drop special.length).length < left := by
        have pos := length_pos_iff.mpr advances
        have inside := (specialAt_isPrefix found).length_le
        rw [length_drop]
        omega
      have notEmpty : special.isEmpty = false := by simpa using advances
      dsimp only
      rw [flatMap_cons, flatMap_cons, filter_append, filter_append, ordinary, nil_append,
        map_append, filter_encodeChunk_special mem advances, notEmpty, ih shorter (.inl rfl), next]
      rfl
    | none =>
      cases text with
      | nil => simp [ordinary, occurrences]
      | cons =>
        rw [length_cons] at enough
        rw [occurrences_none ne found]
        refine ih (by omega) (.inr ?_)
        rw [append_assoc, singleton_append]
        cases between with
        | inl start => rw [start, nil_append, found]
        | inr before => exact before

theorem filter_encode (above : Above tok)
    (ne : ∀ special ∈ spellings tok, special ≠ []) (text : Text) :
    ((tok.encode text true).filter (isSpecial tok)).map some =
      (occurrences (spellings tok) 0 text).map fun special => tok.specialTokens.get? (String.ofList special) := by
  unfold BPETokenizer.encode
  split
  case isTrue none =>
    have empty : spellings tok = [] := by simpa [spellings, Dict.keys] using none
    have nothing : ∀ skip (text : Text), occurrences [] skip text = [] := by
      intro skip text
      fun_induction occurrences [] skip text with
      | case1 => rfl
      | case2 => assumption
      | case3 _ _ _ found => cases found
      | case4 => assumption
    rw [filter_encodeOrdinary ranked above, empty, nothing]
    rfl
  case isFalse => exact filter_splitFrom ranked above ne (by omega) (.inl rfl)

end

theorem mergeTable_save (tok : BPETokenizer) : tok.save.mergeTable = tok.merges := by
  have items : tok.save.mergeTable.items = tok.merges.items := by
    rw [Payload.mergeTable, BPETokenizer.save, foldl_map]
    rw [items_foldl_set .empty (by simp [Dict.keys]) tok.merges.nodupKeys]
    simp
  exact eq_of_items items

theorem tokenizer_eq {first second : BPETokenizer} (cls : first.classes = second.classes)
    (merges : first.merges = second.merges) (specials : first.specialTokens = second.specialTokens) :
    first = second := by
  cases first with
  | mk =>
    cases second with
    | mk => grind

theorem load_save (tok : BPETokenizer) : load tok.classes tok.save = .ok tok := by
  unfold load
  rw [if_neg (by simp [BPETokenizer.save])]
  split
  case h_1 failed =>
    rw [mergeTable_save] at failed
    exact absurd (failed.symm.trans tok.rebuilt) (by simp)
  case h_2 => exact congrArg _ (tokenizer_eq rfl (mergeTable_save tok) rfl)

section Train

variable {cls : CharClasses} {corpus : List Text} {vocabSize : Int} {specials : List String}
  {least : Int}

theorem train_above (trained : train cls corpus vocabSize specials least = .ok tok) :
    Above tok := by
  intro id mem
  rw [(train_inv trained).2.2.2] at mem
  have next := (@finalTraining_learned cls corpus vocabSize specials least).next
  rw [← (train_inv trained).2.2.1] at next
  exact next ▸ le_of_mem_specialIds mem

theorem train_spellings (distinct : specials.Nodup)
    (trained : train cls corpus vocabSize specials least = .ok tok) :
    spellings tok = specials.map String.toList := by
  rw [spellings, (train_inv trained).2.2.2, keys_specialIds distinct]

end Train

/-- Ordinary text has no special id in it. With special tokens allowed there is one for each
occurrence of a spelling, in their order. A tokenizer that was saved and loaded is the one that was
trained. -/
theorem no_boundary_injection (classes : CharClasses) (corpus : List Text) (vocabSize : Int)
    (specialTokens : List String) (minFrequency : Int) (distinct : specialTokens.Nodup)
    (nonempty : ∀ special ∈ specialTokens, special ≠ "") {tok : BPETokenizer}
    (trained : train classes corpus vocabSize specialTokens minFrequency = .ok tok) :
    load classes tok.save = .ok tok ∧
      ∀ text : Text, (∀ id ∈ tok.encode text false, id ∉ tok.specialTokens.values) ∧
        ((tok.encode text true).filter (isSpecial tok)).map some =
          (occurrences (specialTokens.map String.toList) 0 text).map fun special =>
            tok.specialTokens.get? (String.ofList special) := by
  have ranked := train_ranked trained
  have above := train_above trained
  have spelled := train_spellings distinct trained
  have lengths : ∀ special ∈ spellings tok, special ≠ [] := by
    rw [spelled]
    intro special member
    obtain ⟨text, textMember, rfl⟩ := List.mem_map.mp member
    simpa using nonempty text textMember
  refine ⟨(train_inv trained).2.1 ▸ load_save tok, fun text => ⟨fun id member => ?_, ?_⟩⟩
  · exact not_special_of_mem_encodeOrdinary ranked above (by simpa [BPETokenizer.encode] using member)
  · rw [← spelled]
    exact filter_encode ranked above lengths text

/-- Two special tokens of which one begins the other: the one listed first wins. -/
theorem no_boundary_injection_nested :
    (∃ tok, train asciiClasses [] 259 ["<|a|>", END_OF_TEXT, "<|a|>b"] 2 = .ok tok ∧
      load asciiClasses tok.save = .ok tok ∧
      ∀ text : Text, (∀ id ∈ tok.encode text false, id ∉ tok.specialTokens.values) ∧
        ((tok.encode text true).filter (isSpecial tok)).map some =
          (occurrences (["<|a|>", END_OF_TEXT, "<|a|>b"].map String.toList) 0 text).map fun special =>
            tok.specialTokens.get? (String.ofList special)) ∧
      Yields (train asciiClasses [] 259 ["<|a|>", END_OF_TEXT, "<|a|>b"] 2) fun tok =>
        (tok.encode "x<|a|>b<|endoftext|>".toList true).filter (isSpecial tok) = [256, 257] ∧
          (tok.encode "x<|a|>b<|endoftext|>".toList false).length = 20 := by
  refine ⟨?_, by decide +kernel⟩
  obtain ⟨tok, trained, -⟩ := train_spec asciiClasses [] 2
    (show 256 + ((["<|a|>", END_OF_TEXT, "<|a|>b"].length : Nat) : Int) ≤ 259 by decide)
  exact ⟨tok, trained, no_boundary_injection _ _ _ _ _ (by decide) (by decide) trained⟩

end Nanoserve.Verified
