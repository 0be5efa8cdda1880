import Mathlib.Data.Rat.Defs
import Nanoserve.Model.Tokenizer

/-! # The router-replica contract

The messages of `proto/inference.proto` that `Generate` exchanges.
-/

namespace Nanoserve.Proto

open Model (Text)

/-- Zero means unset for `topK` and `topP`. -/
structure SamplingParams where
  maxTokens : Nat
  temperature : Rat := 0
  topK : Nat := 0
  topP : Rat := 0
  ignoreEos : Bool := false
deriving DecidableEq, Repr

structure GenerateRequest where
  prompt : Text
  params : SamplingParams
  requestId : String
  deadlineUnix : Rat := 0
  resumeTokens : List Nat := []
deriving DecidableEq, Repr

inductive Reason where
  | unspecified
  | eos
  | length
  | cancelled
  | rejected
  | preempted
  | error
deriving DecidableEq, Repr

structure Token where
  text : Text
  tokenId : Nat
  index : Nat
deriving DecidableEq, Repr

structure Finish where
  reason : Reason
  outputTokens : Nat
  message : String := ""
deriving DecidableEq, Repr

inductive GenerateChunk where
  | token (token : Token)
  | finish (finish : Finish)
deriving DecidableEq, Repr

/-- The Token messages of a stream. -/
def tokensOf (chunks : List GenerateChunk) : List Token :=
  chunks.filterMap fun
    | .token token => some token
    | .finish _ => none

@[simp] theorem tokensOf_nil : tokensOf [] = [] := rfl

@[simp] theorem tokensOf_append (first second : List GenerateChunk) :
    tokensOf (first ++ second) = tokensOf first ++ tokensOf second := List.filterMap_append

@[simp] theorem tokensOf_token (token : Token) (chunks : List GenerateChunk) :
    tokensOf (.token token :: chunks) = token :: tokensOf chunks := rfl

@[simp] theorem tokensOf_finish (finish : Finish) (chunks : List GenerateChunk) :
    tokensOf (.finish finish :: chunks) = tokensOf chunks := rfl

end Nanoserve.Proto
