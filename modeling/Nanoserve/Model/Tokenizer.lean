import Mathlib.Data.List.Dedup
import Mathlib.Logic.Function.Basic
import Nanoserve.Lib.Dict
import Nanoserve.Lib.Utf8

/-! # The byte-level BPE tokenizer

`model/tokenizer.py`; training is in `Model.Training`, saving and loading in `Model.Persistence`.
-/

namespace Nanoserve.Model

open Lib

abbrev Text := List Char

/-! ## The split pattern -/

/-- What the regular expression asks of the Unicode tables: `\w`, `\d` and `\s`. -/
structure CharClasses where
  word : Char → Bool
  digit : Char → Bool
  space : Char → Bool

namespace CharClasses

/-- `[^\W\d_]` -/
def letter (classes : CharClasses) (c : Char) : Bool := classes.word c && !classes.digit c && c != '_'

/-- `[^\s\w]` -/
def symbol (classes : CharClasses) (c : Char) : Bool := !classes.space c && !classes.word c

end CharClasses

-- Each alternative of `SPLIT_PATTERN` is the length of its match at the front of
-- the text; an empty match is none.
section SplitPattern

def spanLength (keep : Char → Bool) (text : Text) : Nat := (text.takeWhile keep).length

def contraction : Text → Nat
  | quote :: text =>
    if quote = Char.ofNat 39 then
      match text with
      | 's' :: _ | 'd' :: _ | 'm' :: _ | 't' :: _ => 2
      | 'l' :: 'l' :: _ | 'v' :: 'e' :: _ | 'r' :: 'e' :: _ => 3
      | _ => 0
    else 0
  | [] => 0

/-- ` ?` and then one or more characters of the class. -/
def spaced (keep : Char → Bool) (text : Text) : Nat :=
  match text with
  | ' ' :: rest => if spanLength keep rest = 0 then spanLength keep text else spanLength keep rest + 1
  | _ => spanLength keep text

/-- `\s+(?!\S)`: all of the whitespace at the end of the text, all but the last
character of it elsewhere. -/
def trailing (space : Char → Bool) (text : Text) : Nat :=
  if spanLength space text = text.length then text.length else spanLength space text - 1

def matchLength (classes : CharClasses) (text : Text) : Nat :=
  ([contraction text, spaced classes.letter text, spaced classes.digit text, spaced classes.symbol text,
    trailing classes.space text, spanLength classes.space text].find? (· ≠ 0)).getD 0

-- The scan moves on by one character where nothing matches; the first argument
-- bounds the characters left.
def findallFrom (classes : CharClasses) : Nat → Text → List Text
  | 0, _ => []
  | _ + 1, [] => []
  | left + 1, c :: text =>
    let length := matchLength classes (c :: text)
    if length = 0 then findallFrom classes left text
    else (c :: text).take length :: findallFrom classes left ((c :: text).drop length)

/-- `SPLIT_PATTERN.findall`. -/
def findall (classes : CharClasses) (text : Text) : List Text := findallFrom classes text.length text

end SplitPattern

/-! ## Splitting at special tokens -/

-- `re.split` with one capturing group of alternatives, as `_special_re` is.

/-- The first alternative that matches here.  Right after an empty match the next one must advance. -/
def specialAt (specials : List Text) (mustAdvance : Bool) (text : Text) : Option Text :=
  specials.find? fun special => special.isPrefixOf text && !(mustAdvance && special.isEmpty)

-- `chunk` has been read since the last match.  Each round reads a character or
-- makes a match, and no two empty matches follow each other, so twice the
-- characters left bounds the rounds.
def splitFrom (specials : List Text) : Nat → Bool → Text → Text → List Text
  | 0, _, chunk, text => [chunk ++ text]
  | left + 1, mustAdvance, chunk, text =>
    match specialAt specials mustAdvance text with
    | some special =>
      chunk :: special :: splitFrom specials left special.isEmpty [] (text.drop special.length)
    | none =>
      match text with
      | [] => [chunk]
      | c :: text => splitFrom specials left false (chunk ++ [c]) text

/-- What stands between the matches, and the matches, in the order of the text. -/
def split (specials : List Text) (text : Text) : List Text :=
  splitFrom specials (2 * text.length + 2) false [] text

/-! ## The vocabulary -/

abbrev Vocab := Nat → Option (List UInt8)

def utf8 (text : Text) : List UInt8 := text.flatMap String.utf8EncodeChar

def byteVocab : Vocab := fun id => if id < 256 then some [UInt8.ofNat id] else none

/-- The bytes of a merged token are those of its parts; a part that is not in the
table yet is a `KeyError`. -/
def addMerge (vocab : Vocab) (merge : (Nat × Nat) × Nat) : Option Vocab :=
  match vocab merge.1.1, vocab merge.1.2 with
  | some left, some right => some (Function.update vocab merge.2 (some (left ++ right)))
  | _, _ => none

/-- `_rebuild`, as far as decoding goes. -/
def rebuild (merges : Dict (Nat × Nat) Nat) (specialTokens : Dict String Nat) : Option Vocab :=
  (merges.items.foldlM addMerge byteVocab).map fun vocab =>
    specialTokens.items.foldl (fun vocab special => Function.update vocab special.2 (some (utf8 special.1.toList))) vocab

/-- The ids in the table: the bytes, the merges, the special tokens. -/
def vocabIds (merges : Dict (Nat × Nat) Nat) (specialTokens : Dict String Nat) : List Nat :=
  List.range 256 ++ merges.values ++ specialTokens.values

/-- Insertion order of `merges` is merge rank. -/
structure BPETokenizer where
  classes : CharClasses
  merges : Dict (Nat × Nat) Nat
  specialTokens : Dict String Nat
  vocab : Vocab
  rebuilt : rebuild merges specialTokens = some vocab

/-- Replace every non-overlapping occurrence of `pair`. -/
def applyMerge (pair : Nat × Nat) (newId : Nat) : List Nat → List Nat
  | first :: second :: ids =>
    if first = pair.1 ∧ second = pair.2 then newId :: applyMerge pair newId ids
    else first :: applyMerge pair newId (second :: ids)
  | ids => ids

namespace BPETokenizer

/-- `len(self.vocab)`: an id that was written twice counts once. -/
def vocabSize (tok : BPETokenizer) : Nat := (vocabIds tok.merges tok.specialTokens).dedup.length

/-! ## Encoding -/

def rank (tok : BPETokenizer) (pair : Nat × Nat) : Option Nat := tok.merges.keys.idxOf? pair

/-- The adjacent pair that was learned earliest, with its rank. -/
def best (tok : BPETokenizer) (ids : List Nat) : Option ((Nat × Nat) × Nat) :=
  (ids.zip ids.tail).foldl (fun best pair =>
    match tok.rank pair, best with
    | none, _ => best
    | some rank, none => some (pair, rank)
    | some rank, some (_, bestRank) => if rank < bestRank then some (pair, rank) else best) none

-- Every merge makes the list shorter, so its length bounds the iterations.
def encodeLoop (tok : BPETokenizer) : Nat → List Nat → List Nat
  | 0, ids => ids
  | left + 1, ids =>
    if ids.length > 1 then
      match tok.best ids with
      | none => ids
      | some (pair, _) =>
        match tok.merges.get? pair with
        | none => ids
        | some newId => encodeLoop tok left (applyMerge pair newId ids)
    else ids

def encodePiece (tok : BPETokenizer) (piece : List UInt8) : List Nat :=
  tok.encodeLoop piece.length (piece.map UInt8.toNat)

-- The loop again, without the bound: what keeps it going, and what one round does.
-- `self.merges[best]` of a pair that was not merged is a `KeyError`.

def mergeable (tok : BPETokenizer) (ids : List Nat) : Bool := decide (ids.length > 1) && (tok.best ids).isSome

inductive KeyError where
  | keyError
deriving DecidableEq, Repr

def mergeBest (tok : BPETokenizer) (ids : List Nat) : Except KeyError (List Nat) :=
  match tok.best ids with
  | none => .ok ids
  | some (pair, _) =>
    match tok.merges.get? pair with
    | none => .error .keyError
    | some newId => .ok (applyMerge pair newId ids)

/-- `_cache` -/
abbrev Memo := Dict (List UInt8) (List Nat)

/-- `_encode_piece`, from its memo if the piece is there. -/
def recallPiece (tok : BPETokenizer) (memo : Memo) (piece : List UInt8) : List Nat × Memo :=
  match memo.get? piece with
  | some cached => (cached, memo)
  | none => (tok.encodePiece piece, memo.set piece (tok.encodePiece piece))

/-- The memo after a list of pieces, from a new tokenizer on. -/
def memoAfter (tok : BPETokenizer) (earlier : List (List UInt8)) : Memo :=
  earlier.foldl (fun memo piece => (tok.recallPiece memo piece).2) .empty

/-- `encode(text, allowed_special=False)`. -/
def encodeOrdinary (tok : BPETokenizer) (text : Text) : List Nat :=
  (findall tok.classes text).flatMap fun piece => tok.encodePiece (utf8 piece)

/-- `encode`.  Occurrences of a special token's text become that token if they are allowed to. -/
def encode (tok : BPETokenizer) (text : Text) (allowedSpecial : Bool) : List Nat :=
  if !allowedSpecial || tok.specialTokens.items.isEmpty then tok.encodeOrdinary text
  else
    (split (tok.specialTokens.keys.map String.toList) text).flatMap fun chunk =>
      if chunk.isEmpty then []
      else
        match tok.specialTokens.get? (String.ofList chunk) with
        | some id => [id]
        | none => tok.encodeOrdinary chunk

/-! ## Decoding -/

/-- The bytes behind the ids; an id outside the vocabulary is a `KeyError`. -/
def bytes (tok : BPETokenizer) (ids : List Nat) : Option (List UInt8) := (ids.mapM tok.vocab).map List.flatten

def decode (tok : BPETokenizer) (ids : List Nat) : Option Text := (tok.bytes ids).map Utf8.decode

end BPETokenizer

end Nanoserve.Model
