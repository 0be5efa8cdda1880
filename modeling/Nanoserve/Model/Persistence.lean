import Nanoserve.Model.Tokenizer

/-! # Saving and loading a tokenizer

`save` and `load` of `model/tokenizer.py`, between the tokenizer and the payload that stands in the
file.
-/

namespace Nanoserve.Model

open Lib

/-- What stands in the file.  A payload that was not written by `save` may lack its version. -/
structure Payload where
  version : Option Int
  vocabSize : Nat
  specialTokens : Dict String Nat
  merges : List (Nat × Nat × Nat)

/-- `{(a, b): i for a, b, i in payload["merges"]}` -/
def Payload.mergeTable (payload : Payload) : Dict (Nat × Nat) Nat :=
  payload.merges.foldl (fun merges triple => merges.set (triple.1, triple.2.1) triple.2.2) .empty

inductive LoadError where
  | valueError (message : String)
  | keyError  -- of `_rebuild`
deriving DecidableEq, Repr

namespace BPETokenizer

/-- The merges as triples in rank order: the order is the tokenizer. -/
def save (tok : BPETokenizer) : Payload where
  version := some 1
  vocabSize := tok.vocabSize
  specialTokens := tok.specialTokens
  merges := tok.merges.items.map fun merge => (merge.1.1, merge.1.2, merge.2)

def load (classes : CharClasses) (payload : Payload) : Except LoadError BPETokenizer :=
  if payload.version ≠ some 1 then
    .error (.valueError ("unsupported tokenizer format: " ++ payload.version.elim "None" toString))
  else
    match rebuilt : rebuild payload.mergeTable payload.specialTokens with
    | none => .error .keyError
    | some vocab =>
      .ok { classes, merges := payload.mergeTable, specialTokens := payload.specialTokens, vocab, rebuilt }

end BPETokenizer

end Nanoserve.Model
