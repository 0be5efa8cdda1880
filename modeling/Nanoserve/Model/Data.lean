import Mathlib.Algebra.Group.Nat.Defs
import Nanoserve.Lib.Loops
import Nanoserve.Lib.Runs
import Nanoserve.Lib.Split
import Nanoserve.Model.Training

/-! # From a corpus to a token file

`stream_documents` and `prepare` of `model/train/data.py`. A file opened for reading is the text
that is left of it.
-/

namespace Nanoserve.Model

open Lib

/-! ## Documents -/

/-- `str.strip` -/
def strip (classes : CharClasses) (text : Text) : Text :=
  ((text.dropWhile classes.space).reverse.dropWhile classes.space).reverse

/-- The parts that have something in them. -/
def nonblank (classes : CharClasses) (parts : List Text) : List Text :=
  (parts.map (strip classes)).filter fun doc => !doc.isEmpty

/-- The variables of `stream_documents`, with the file and everything yielded. -/
structure Reading where
  rest : Text
  read : Int := 0
  tail : Text := []
  yielded : List Text := []
  reading : Bool := true
deriving DecidableEq, Repr

namespace Reading

/-- How much to ask for: with `max_bytes`, no more than is left of them. -/
def want (chunkBytes : Nat) (maxBytes : Option Int) (state : Reading) : Int :=
  match maxBytes with
  | none => chunkBytes
  | some maxBytes => min chunkBytes (maxBytes - state.read)

/-- One round of `while True`; `reading` is false after a `break`. -/
def round (classes : CharClasses) (chunkBytes : Nat) (maxBytes : Option Int) (state : Reading) : Except Empty Reading :=
  let want := state.want chunkBytes maxBytes
  if maxBytes.isSome ∧ want ≤ 0 then .ok { state with reading := false }
  else
    let chunk := state.rest.take want.toNat
    if chunk = [] then .ok { state with reading := false }
    else
      let parts := splitAt END_OF_TEXT.toList (state.tail ++ chunk)
      .ok
        { rest := state.rest.drop want.toNat
          read := state.read + chunk.length
          tail := parts.getLastD []
          yielded := state.yielded ++ nonblank classes parts.dropLast }

end Reading

/-- What `stream_documents` yields, unless it is still reading after so many rounds. -/
def streamDocuments (classes : CharClasses) (chunkBytes : Nat) (maxBytes : Option Int) (text : Text) (rounds : Nat) :
    Option (List Text) :=
  match loop Reading.reading (Reading.round classes chunkBytes maxBytes) rounds { rest := text } with
  | .ok (some last) => some (last.yielded ++ nonblank classes [last.tail])
  | _ => none

/-! ## The token file -/

def MAX_VOCAB_FOR_UINT16 : Nat := 2 ^ 16

inductive PrepareError where
  | valueError (message : String)
  | keyError
  | overflowError  -- of an id that is not a `uint16`
deriving DecidableEq, Repr

/-- `np.asarray(buf, dtype=np.uint16)` -/
def asUint16 (buf : List Nat) : Except PrepareError (List UInt16) :=
  if ∀ id ∈ buf, id < 2 ^ 16 then .ok (buf.map UInt16.ofNat) else .error .overflowError

/-- The variables of the loop in `prepare`, and the file. -/
structure Writing where
  file : List UInt16 := []
  buf : List Nat := []
  nTokens : Nat := 0
  nDocs : Nat := 0
  pending : Option Text := none
deriving DecidableEq, Repr

namespace Writing

/-- `tofile` -/
def flush (writing : Writing) : Except PrepareError Writing :=
  match asUint16 writing.buf with
  | .error raised => .error raised
  | .ok tokens => .ok { writing with file := writing.file ++ tokens, buf := [] }

/-- A document that is kept. -/
def keep (tokenizer : BPETokenizer) (eos : Nat) (flushTokens : Int) (writing : Writing) (doc : Text) :
    Except PrepareError Writing :=
  let ids := tokenizer.encode doc false ++ [eos]
  let writing := { writing with
    buf := writing.buf ++ ids
    nTokens := writing.nTokens + ids.length
    nDocs := writing.nDocs + 1 }
  if writing.buf.length ≥ flushTokens then writing.flush else .ok writing

/-- One round: with `drop_last_document`, the document before is the one to be written. -/
def round (tokenizer : BPETokenizer) (eos : Nat) (flushTokens : Int) (dropLastDocument : Bool) (writing : Writing)
    (doc : Text) : Except PrepareError Writing :=
  if dropLastDocument then
    match writing.pending with
    | none => .ok { writing with pending := some doc }
    | some held => keep tokenizer eos flushTokens { writing with pending := some doc } held
  else keep tokenizer eos flushTokens writing doc

end Writing

structure Manifest where
  tokens : Nat
  documents : Nat
  vocabSize : Nat
  eosId : Nat
  droppedFirstDocument : Bool
  droppedLastDocument : Bool
deriving DecidableEq, Repr

/-- `prepare` on what `stream_documents` yields. -/
def prepare (tokenizer : BPETokenizer) (flushTokens : Int) (dropFirstDocument dropLastDocument : Bool)
    (docs : List Text) : Except PrepareError (List UInt16 × Manifest) :=
  if tokenizer.vocabSize > MAX_VOCAB_FOR_UINT16 then
    .error (.valueError ("vocab_size=" ++ toString tokenizer.vocabSize ++
      " does not fit in uint16; widen the dtype in prepare() before training this tokenizer"))
  else
    match tokenizer.eosId with
    | none => .error .keyError
    | some eos =>
      let docs := if dropFirstDocument then docs.drop 1 else docs
      match run (Writing.round tokenizer eos flushTokens dropLastDocument) {} docs with
      | .error raised => .error raised
      | .ok writing =>
        match if writing.buf = [] then .ok writing else writing.flush with
        | .error raised => .error raised
        | .ok written =>
          .ok (written.file,
            { tokens := written.nTokens
              documents := written.nDocs
              vocabSize := tokenizer.vocabSize
              eosId := eos
              droppedFirstDocument := dropFirstDocument
              droppedLastDocument := dropLastDocument })

end Nanoserve.Model
