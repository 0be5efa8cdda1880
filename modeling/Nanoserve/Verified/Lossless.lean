import Mathlib.Data.List.TakeWhile
import Nanoserve.Lib.Runs
import Nanoserve.Verified.Training

/-! # What encoding loses

Merging loses no byte and splitting at special tokens loses no character.
-/

namespace Nanoserve.Verified

open Lib Model List

variable {c : Char} {text : Text} {keep : Char → Bool}

/-! ## The pattern -/

/-- A character that no alternative of the pattern takes. -/
def lost (classes : CharClasses) (c : Char) : Bool :=
  c == '_' && classes.word c && !classes.digit c && !classes.space c

section SplitPattern

variable {cls : CharClasses}

theorem lost_iff :
    lost cls c = true ↔ cls.letter c = false ∧ cls.digit c = false ∧ cls.symbol c = false ∧
      cls.space c = false := by
  simp only [lost, CharClasses.letter, CharClasses.symbol]
  by_cases underscore : c = '_'
  · cases cls.word c <;> cases cls.digit c <;> cases cls.space c <;> simp [underscore]
  · cases cls.word c <;> cases cls.digit c <;> cases cls.space c <;> simp [underscore]

theorem not_lost_of_ne (differs : c ≠ '_') : lost cls c = false := by
  simp [lost, differs]

theorem not_lost_of_letter (letter : cls.letter c = true) : lost cls c = false :=
  Bool.eq_false_iff.mpr fun gone => absurd (lost_iff.mp gone).1 (by simp [letter])

theorem not_lost_of_digit (digit : cls.digit c = true) : lost cls c = false :=
  Bool.eq_false_iff.mpr fun gone => absurd (lost_iff.mp gone).2.1 (by simp [digit])

theorem not_lost_of_symbol (symbol : cls.symbol c = true) : lost cls c = false :=
  Bool.eq_false_iff.mpr fun gone => absurd (lost_iff.mp gone).2.2.1 (by simp [symbol])

theorem not_lost_of_space {c : Char} (space : cls.space c = true) : lost cls c = false :=
  Bool.eq_false_iff.mpr fun gone => absurd (lost_iff.mp gone).2.2.2 (by simp [space])

def Safe (classes : CharClasses) (text : Text) (length : Nat) : Prop :=
  ∀ c ∈ text.take length, lost classes c = false

theorem Safe.mono {shorter longer : Nat} (safe : Safe cls text longer) (le : shorter ≤ longer) :
    Safe cls text shorter :=
  fun c mem => safe c ((take_prefix_take_left le).subset mem)

theorem safe_spanLength (safe : ∀ c, keep c = true → lost cls c = false) (text : Text) :
    Safe cls text (spanLength keep text) := by
  intro c mem
  have front : text.take (spanLength keep text) = text.takeWhile keep :=
    (prefix_iff_eq_take.mp ( takeWhile_prefix keep)).symm
  rw [front] at mem
  exact safe c (mem_takeWhile_imp mem)

theorem safe_spaced (safe : ∀ c, keep c = true → lost cls c = false) (text : Text) :
    Safe cls text (spaced keep text) := by
  unfold spaced
  split
  case h_2 => exact safe_spanLength safe text
  case h_1 rest =>
    split
    · exact safe_spanLength safe (' ' :: rest)
    · intro c mem
      cases mem_cons.mp mem with
      | inl space =>
        subst space
        exact not_lost_of_ne (by decide)
      | inr later => exact safe_spanLength safe rest c later

theorem safe_trailing (text : Text) : Safe cls text (trailing cls.space text) := by
  have spaces := safe_spanLength (fun c => @not_lost_of_space cls c) text
  unfold trailing
  split
  case isTrue whole => exact whole ▸ spaces
  case isFalse => exact spaces.mono (Nat.sub_le _ _)

theorem safe_contraction (text : Text) : Safe cls text (contraction text) := by
  have spelled : ∀ c ∈ text.take (contraction text), c ≠ '_' := by
    unfold contraction
    split
    case h_2 => simp
    case h_1 =>
      split
      case isFalse => simp
      case isTrue isQuote =>
        subst isQuote
        split <;> simp
  exact fun c mem => not_lost_of_ne (spelled c mem)

def alternatives (classes : CharClasses) (text : Text) : List Nat :=
  [contraction text, spaced classes.letter text, spaced classes.digit text, spaced classes.symbol text,
    trailing classes.space text, spanLength classes.space text]

theorem matchLength_mem (matched : matchLength cls text ≠ 0) :
    matchLength cls text ∈ alternatives cls text := by
  unfold matchLength at matched ⊢
  cases found : find? (· ≠ 0) (alternatives cls text) with
  | none => exact absurd (congrArg (Option.getD · 0) found) matched
  | some length =>
    have taken : _ = length := congrArg (Option.getD · 0) found
    exact taken ▸ mem_of_find?_eq_some found

theorem alternatives_of_matchLength_eq_zero (none : matchLength cls text = 0) :
    ∀ length ∈ alternatives cls text, length = 0 := by
  intro length mem
  by_contra nonzero
  have matched : (find? (· ≠ 0) (alternatives cls text)).isSome :=
    find?_isSome.mpr ⟨length, mem, decide_eq_true nonzero⟩
  obtain ⟨_, found⟩ := Option.isSome_iff_exists.mp matched
  have taken := congrArg (Option.getD · 0) found
  exact absurd (taken.symm.trans none) (by simpa using find?_some found)

theorem safe_matchLength (text : Text) : Safe cls text (matchLength cls text) := by
  by_cases matched : matchLength cls text = 0
  · rw [matched]
    exact fun c mem => absurd mem (by simp)
  · have mem := matchLength_mem matched
    generalize matchLength cls text = length at mem ⊢
    simp only [alternatives, mem_cons, not_mem_nil, or_false] at mem
    obtain rfl | rfl | rfl | rfl | rfl | rfl := mem
    · exact safe_contraction text
    · exact safe_spaced (fun c => not_lost_of_letter) text
    · exact safe_spaced (fun c => not_lost_of_digit) text
    · exact safe_spaced (fun c => not_lost_of_symbol) text
    · exact safe_trailing text
    · exact safe_spanLength (fun c => not_lost_of_space) text

theorem spanLength_cons_ne_zero (kept : keep c = true) (text : Text) : spanLength keep (c :: text) ≠ 0 := by
  simp [spanLength, kept]

theorem spaced_cons_ne_zero (kept : keep c = true) (text : Text) : spaced keep (c :: text) ≠ 0 := by
  unfold spaced
  split
  case h_2 => exact spanLength_cons_ne_zero kept text
  case h_1 =>
    split
    · exact spanLength_cons_ne_zero kept text
    · omega

theorem lost_of_matchLength_eq_zero (none : matchLength cls (c :: text) = 0) : lost cls c = true := by
  have all := alternatives_of_matchLength_eq_zero none
  simp only [alternatives, forall_mem_cons] at all
  obtain ⟨-, letters, digits, symbols, -, spaces, -⟩ := all
  refine lost_iff.mpr ⟨?_, ?_, ?_, ?_⟩
  · exact Bool.eq_false_iff.mpr fun letter => spaced_cons_ne_zero letter text letters
  · exact Bool.eq_false_iff.mpr fun digit => spaced_cons_ne_zero digit text digits
  · exact Bool.eq_false_iff.mpr fun symbol => spaced_cons_ne_zero symbol text symbols
  · exact Bool.eq_false_iff.mpr fun space => spanLength_cons_ne_zero space text spaces

/-- What is left of a text. -/
def remains (classes : CharClasses) (text : Text) : Text := text.filter fun c => !lost classes c

theorem findallFrom_flatten {left : Nat} (enough : text.length ≤ left) :
    (findallFrom cls left text).flatten = remains cls text := by
  induction left generalizing text with
  | zero =>
    obtain rfl := length_eq_zero_iff.mp (Nat.le_zero.mp enough)
    rfl
  | succ left ih =>
    cases text with
    | nil => rfl
    | cons c text =>
      simp only [findallFrom]
      rw [length_cons] at enough
      split
      case isTrue none =>
        rw [ih (by omega), remains, remains, filter_cons,
          lost_of_matchLength_eq_zero none]
        rfl
      case isFalse =>
        have shorter : ((c :: text).drop (matchLength cls (c :: text))).length ≤ left := by
          rw [length_drop, length_cons]
          omega
        have front : remains cls ((c :: text).take (matchLength cls (c :: text))) =
            (c :: text).take (matchLength cls (c :: text)) := by
          rw [remains, filter_eq_self]
          intro other mem
          simp [safe_matchLength (c :: text) other mem]
        rw [flatten_cons, ih shorter, ← front, remains, remains, remains, ← filter_append,
          take_append_drop]

theorem findall_flatten (cls : CharClasses) (text : Text) :
    (findall cls text).flatten = remains cls text :=
  findallFrom_flatten (Nat.le_refl _)

end SplitPattern

theorem specialAt_isPrefix {specials : List Text} {mustAdvance : Bool} {special : Text}
    (found : specialAt specials mustAdvance text = some special) : special <+: text := by
  have accepted := find?_some found
  rw [Bool.and_eq_true] at accepted
  exact isPrefixOf_iff_prefix.mp accepted.1

theorem splitFrom_flatten (specials : List Text) (left : Nat) (mustAdvance : Bool) (chunk text : Text) :
    (splitFrom specials left mustAdvance chunk text).flatten = chunk ++ text := by
  induction left generalizing mustAdvance chunk text with
  | zero => simp [splitFrom]
  | succ _ ih =>
    simp only [splitFrom]
    split
    case h_1 _ found =>
      obtain ⟨_, rfl⟩ := specialAt_isPrefix found
      rw [flatten_cons, flatten_cons, ih, drop_left, nil_append]
    case h_2 =>
      cases text with
      | nil => simp
      | cons =>
        rw [ih, append_assoc, singleton_append]

theorem split_flatten (specials : List Text) (text : Text) : (split specials text).flatten = text :=
  splitFrom_flatten specials _ false [] text

/-! ## Encoding -/

variable {tok : BPETokenizer}

/-- The parts a text is encoded in, each with whether it is taken as a special token. -/
def parts (tok : BPETokenizer) (text : Text) (allowedSpecial : Bool) : List (Text × Bool) :=
  if !allowedSpecial || tok.specialTokens.items.isEmpty then [(text, false)]
  else
    (split (tok.specialTokens.keys.map String.toList) text).map fun chunk =>
      (chunk, (tok.specialTokens.get? (String.ofList chunk)).isSome)

theorem parts_flatten (tok : BPETokenizer) (text : Text) (allowedSpecial : Bool) :
    ((parts tok text allowedSpecial).map Prod.fst).flatten = text := by
  unfold parts
  split
  · simp
  · rw [map_map]
    exact (congrArg flatten (map_id _)).trans (split_flatten _ text)

/-- What comes back of one part. -/
def partRemains (classes : CharClasses) (part : Text × Bool) : Text :=
  if part.2 then part.1 else remains classes part.1

theorem utf8_flatMap {α : Type} (items : List α) (spelling : α → Text) :
    items.flatMap (fun item => utf8 (spelling item)) = utf8 (items.flatMap spelling) := by
  simp only [utf8, flatMap_assoc]

section

variable (spells : Spells tok.merges tok.specialTokens tok.vocab)
include spells

theorem bytes_encodeOrdinary (text : Text) :
    tok.bytes (tok.encodeOrdinary text) = some (utf8 (remains tok.classes text)) := by
  rw [BPETokenizer.encodeOrdinary, bytes_flatMap fun piece _ => bytes_encodePiece spells (utf8 piece)]
  rw [← findall_flatten tok.classes text, ← flatMap_id']
  exact congrArg some (utf8_flatMap _ _)

theorem bytes_encode (text : Text) (allowedSpecial : Bool) :
    tok.bytes (tok.encode text allowedSpecial) =
      some (utf8 ((parts tok text allowedSpecial).flatMap (partRemains tok.classes))) := by
  unfold BPETokenizer.encode parts
  split
  case isTrue => simp [bytes_encodeOrdinary spells, partRemains]
  case isFalse =>
    rw [flatMap_map, ← utf8_flatMap]
    refine bytes_flatMap fun chunk _ => ?_
    split
    case isTrue empty =>
      obtain rfl := List.isEmpty_iff.mp empty
      simp [partRemains, remains, BPETokenizer.bytes, utf8]
    case isFalse =>
      cases held : tok.specialTokens.get? (String.ofList chunk) with
      | none => simp [partRemains, bytes_encodeOrdinary spells]
      | some id =>
        have spelled := spells.special _ id held
        rw [String.toList_ofList] at spelled
        simp [partRemains, BPETokenizer.bytes, spelled]

theorem decode_encode (text : Text) (allowedSpecial : Bool) :
    tok.decode (tok.encode text allowedSpecial) =
      some ((parts tok text allowedSpecial).flatMap (partRemains tok.classes)) :=
  decode_eq_some.mpr ⟨_, bytes_encode spells text allowedSpecial, Utf8.decode_encode _⟩

end

/-- No part encoded as ordinary text has a character that is lost. -/
def Kept (classes : CharClasses) (parts : List (Text × Bool)) : Prop :=
  ∀ part ∈ parts, part.2 = false → ∀ c ∈ part.1, lost classes c = false

theorem partRemains_eq_iff {cls : CharClasses} {part : Text × Bool} :
    partRemains cls part = part.1 ↔ (part.2 = false → ∀ c ∈ part.1, lost cls c = false) := by
  cases special : part.2 with
  | true => simp [partRemains, special]
  | false => simp [partRemains, special, remains, filter_eq_self]

theorem partRemains_sublist (cls : CharClasses) (part : Text × Bool) :
    Sublist (partRemains cls part) part.1 := by
  unfold partRemains
  split
  · exact Sublist.refl _
  · exact filter_sublist

theorem flatMap_partRemains_sublist (cls : CharClasses) (parts : List (Text × Bool)) :
    Sublist (parts.flatMap (partRemains cls)) (parts.map Prod.fst).flatten := by
  induction parts with
  | nil => exact Sublist.refl _
  | cons part _ ih => exact (partRemains_sublist cls part).append ih

theorem flatMap_partRemains_eq_iff {cls : CharClasses} {parts : List (Text × Bool)} :
    parts.flatMap (partRemains cls) = (parts.map Prod.fst).flatten ↔ Kept cls parts := by
  induction parts with
  | nil => simp [Kept]
  | cons part parts ih =>
    have front := (partRemains_sublist cls part).length_le
    have rest := (flatMap_partRemains_sublist cls parts).length_le
    have both : Kept cls (part :: parts) ↔ partRemains cls part = part.1 ∧ Kept cls parts := by
      rw [partRemains_eq_iff]
      exact forall_mem_cons
    rw [both, ← ih, flatMap_cons, map_cons, flatten_cons]
    constructor
    · intro whole
      have lengths := congrArg List.length whole
      rw [length_append, length_append] at lengths
      exact append_inj whole (by omega)
    · intro each
      rw [each.1, each.2]

theorem decode_encode_eq_iff (spells : Spells tok.merges tok.specialTokens tok.vocab) {allowedSpecial : Bool} :
    tok.decode (tok.encode text allowedSpecial) = some text ↔ Kept tok.classes (parts tok text allowedSpecial) := by
  rw [decode_encode spells, ← flatMap_partRemains_eq_iff, parts_flatten, Option.some.injEq]

/-- A trained tokenizer gives back exactly the texts that have no underscore, as the tables class
it, outside their special tokens. -/
theorem trained_roundtrip_iff (classes : CharClasses) (corpus : List Text) (vocabSize : Int)
    (specialTokens : List String) (minFrequency : Int) (accepted : 256 + (specialTokens.length : Int) ≤ vocabSize) :
    Yields (BPETokenizer.train classes corpus vocabSize specialTokens minFrequency) fun tok =>
      ∀ (text : Text) (allowedSpecial : Bool),
        tok.decode (tok.encode text allowedSpecial) =
            some ((parts tok text allowedSpecial).flatMap (partRemains classes)) ∧
          (tok.decode (tok.encode text allowedSpecial) = some text ↔
            Kept classes (parts tok text allowedSpecial)) := by
  obtain ⟨tok, trained, rfl, spells⟩ := train_spec classes corpus minFrequency accepted
  exact ⟨tok, trained, fun text allowedSpecial => ⟨decode_encode spells text allowedSpecial, decode_encode_eq_iff spells⟩⟩

/-- An underscore in a special token comes back, one in ordinary text does not. -/
theorem trained_roundtrip_iff_ascii :
    256 + (([END_OF_TEXT, "<|end_of_turn|>"].length : Nat) : Int) ≤ 260 ∧
      Yields (BPETokenizer.train asciiClasses ["the cat the hat".toList] 260 [END_OF_TEXT, "<|end_of_turn|>"] 2)
        (fun tok => ∀ (text : Text) (allowedSpecial : Bool),
          tok.decode (tok.encode text allowedSpecial) =
              some ((parts tok text allowedSpecial).flatMap (partRemains asciiClasses)) ∧
            (tok.decode (tok.encode text allowedSpecial) = some text ↔
              Kept asciiClasses (parts tok text allowedSpecial))) ∧
      Yields (BPETokenizer.train asciiClasses ["the cat the hat".toList] 260 [END_OF_TEXT, "<|end_of_turn|>"] 2)
        (fun tok => tok.decode (tok.encode "that's 1<|end_of_turn|>  ".toList true) =
            some "that's 1<|end_of_turn|>  ".toList ∧
          tok.decode (tok.encode "that's 1<|end_of_turn|>  ".toList false) = some "that's 1<|endofturn|>  ".toList) :=
  ⟨by decide, trained_roundtrip_iff asciiClasses _ 260 _ 2 (by decide), by decide +kernel⟩

/-- `decode(encode("snake_case"))` is `"snakecase"`. -/
theorem underscore_is_lost :
    Yields (BPETokenizer.train asciiClasses [] 257 [END_OF_TEXT] 2) fun tok =>
      (findall tok.classes "snake_case".toList).flatten ≠ "snake_case".toList ∧
        tok.decode (tok.encode "snake_case".toList true) = some "snakecase".toList ∧
        tok.decode (tok.encode "snake_case".toList false) = some "snakecase".toList := by
  decide +kernel

end Nanoserve.Verified
