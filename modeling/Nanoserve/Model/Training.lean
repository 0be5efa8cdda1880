import Nanoserve.Lib.Counter
import Nanoserve.Model.Tokenizer

/-! # Training the tokenizer

`BPETokenizer.train`: the corpus is collapsed to distinct pre-tokens with their counts.
-/

namespace Nanoserve.Model

open Lib

/-- `zip(word, word[1:])` -/
def pairs (word : List Nat) : List (Nat × Nat) := word.zip word.tail

/-! ## The pair index -/

/-- `pair_counts` and `where`. -/
structure PairIndex where
  counts : Counter (Nat × Nat) := .empty
  places : Dict (Nat × Nat) (List Nat) := .empty

namespace PairIndex

/-- `where[pair]`, of a `defaultdict`. -/
def placesOf (index : PairIndex) (pair : Nat × Nat) : List Nat := (index.places.get? pair).getD []

def addPair (wi : Nat) (f : Int) (index : PairIndex) (pair : Nat × Nat) : PairIndex where
  counts := index.counts.increase pair f
  places :=
    let here := index.placesOf pair
    index.places.set pair (if wi ∈ here then here else here ++ [wi])

def retractPair (wi : Nat) (f : Int) (index : PairIndex) (pair : Nat × Nat) : PairIndex where
  counts := index.counts.decrease pair f
  places := index.places.set pair ((index.placesOf pair).filter (· ≠ wi))

def addWord (index : PairIndex) (wi : Nat) (f : Int) (word : List Nat) : PairIndex :=
  (pairs word).foldl (addPair wi f) index

def retractWord (index : PairIndex) (wi : Nat) (f : Int) (word : List Nat) : PairIndex :=
  (pairs word).foldl (retractPair wi f) index

/-- The order `max` compares by: the count, then the pair. -/
def below (first second : (Nat × Nat) × Int) : Bool :=
  decide (first.2 < second.2) || decide (first.2 = second.2) &&
    (decide (first.1.1 < second.1.1) || decide (first.1.1 = second.1.1) && decide (first.1.2 < second.1.2))

/-- One comparison of `max`: the first of the greatest stays. -/
def greater (best : Option ((Nat × Nat) × Int)) (item : (Nat × Nat) × Int) : Option ((Nat × Nat) × Int) :=
  match best with
  | none => some item
  | some greatest => if below greatest item then some item else best

/-- `max(pair_counts, key=..)`, with the count of that pair. -/
def best (index : PairIndex) : Option ((Nat × Nat) × Int) := index.counts.items.foldl greater none

end PairIndex

/-! ## Merging -/

structure Training where
  words : List (List Nat)
  freqs : List Int
  index : PairIndex
  merges : Dict (Nat × Nat) Nat := .empty
  nextId : Nat := 256

/-- The corpus, collapsed. -/
def collapse (classes : CharClasses) (corpus : List Text) : Counter (List UInt8) :=
  corpus.foldl (fun counts text =>
    (findall classes text).foldl (fun counts piece => counts.increase (utf8 piece) 1) counts) .empty

namespace Training

def start (counts : Counter (List UInt8)) : Training :=
  let words := counts.keys.map (List.map UInt8.toNat)
  let freqs := counts.values
  { words
    freqs
    index := (words.zip freqs).zipIdx.foldl (fun index item => index.addWord item.2 item.1.2 item.1.1) {} }

/-- Retract a word's contribution, rewrite it, add it again. -/
def rewrite (pair : Nat × Nat) (training : Training) (wi : Nat) : Training :=
  let word := training.words.getD wi []
  let f := training.freqs.getD wi 0
  let newWord := applyMerge pair training.nextId word
  { training with
    words := training.words.set wi newWord
    index := (training.index.retractWord wi f word).addWord wi f newWord }

def merge (training : Training) (pair : Nat × Nat) : Training :=
  let affected := training.index.placesOf pair
  let rewritten := affected.foldl (rewrite pair) { training with merges := training.merges.set pair training.nextId }
  { rewritten with
    index := { rewritten.index with places := rewritten.index.places.erase pair }
    nextId := training.nextId + 1 }

/-- `for step in range(n_merges)`, with its two ways out. -/
def mergeLoop (minFrequency : Int) : Nat → Training → Training
  | 0, training => training
  | left + 1, training =>
    match training.index.best with
    | none => training
    | some (pair, seen) => if seen < minFrequency then training else mergeLoop minFrequency left (training.merge pair)

/-- `{tok: next_id + i for i, tok in enumerate(specials)}` -/
def specialIds (nextId : Nat) (specials : List String) : Dict String Nat :=
  specials.zipIdx.foldl (fun ids special => ids.set special.1 (nextId + special.2)) .empty

end Training

inductive TrainError where
  | valueError (message : String)
  | keyError  -- of `_rebuild`
deriving DecidableEq, Repr

def END_OF_TEXT : String := "<|endoftext|>"

/-- `special_tokens[END_OF_TEXT]`; a tokenizer without it raises a `KeyError`. -/
def BPETokenizer.eosId (tok : BPETokenizer) : Option Nat := tok.specialTokens.get? END_OF_TEXT

def BPETokenizer.train (classes : CharClasses) (corpus : List Text) (vocabSize : Int) (specialTokens : List String)
    (minFrequency : Int) : Except TrainError BPETokenizer :=
  let nMerges := vocabSize - 256 - specialTokens.length
  if nMerges < 0 then
    .error (.valueError ("vocab_size=" ++ toString vocabSize ++ " is smaller than the 256 byte tokens plus " ++
      toString specialTokens.length ++ " special tokens"))
  else
    let training := Training.mergeLoop minFrequency nMerges.toNat (.start (collapse classes corpus))
    let specialTokens := Training.specialIds training.nextId specialTokens
    match rebuilt : rebuild training.merges specialTokens with
    | none => .error .keyError
    | some vocab => .ok { classes, merges := training.merges, specialTokens, vocab, rebuilt }

end Nanoserve.Model
