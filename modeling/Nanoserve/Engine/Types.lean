import Mathlib.Data.Rat.Defs

/-! # The vocabulary every engine speaks

`engine/types.py`.
-/

namespace Nanoserve.Engine

inductive FinishReason where
  | eos
  | length
  | cancelled
  | rejected
  | preempted
deriving DecidableEq, Repr

/-- How to turn logits into a token. -/
structure SamplingParams where
  maxTokens : Nat := 128
  temperature : Rat := 0
  topK : Option Nat := none
  topP : Option Rat := none
  ignoreEos : Bool := false
deriving DecidableEq, Repr

def SamplingParams.greedy (params : SamplingParams) : Bool := params.temperature == 0

/-- One inference request, from arrival to completion. -/
structure Request where
  promptTokenIds : List Nat
  params : SamplingParams := {}
  requestId : String
  outputTokenIds : List Nat := []
  finishReason : Option FinishReason := none
  rejectionReason : String := ""
deriving DecidableEq, Repr

namespace Request

def promptLen (request : Request) : Nat := request.promptTokenIds.length

def outputLen (request : Request) : Nat := request.outputTokenIds.length

def recordToken (request : Request) (tokenId : Nat) : Request :=
  { request with outputTokenIds := request.outputTokenIds ++ [tokenId] }

def finish (request : Request) (reason : FinishReason) : Request :=
  { request with finishReason := some reason }

variable (request : Request) (tokenId : Nat) (reason : FinishReason)

@[simp] theorem promptTokenIds_recordToken :
    (request.recordToken tokenId).promptTokenIds = request.promptTokenIds := rfl

@[simp] theorem params_recordToken : (request.recordToken tokenId).params = request.params := rfl

@[simp] theorem requestId_recordToken : (request.recordToken tokenId).requestId = request.requestId := rfl

@[simp] theorem outputTokenIds_recordToken :
    (request.recordToken tokenId).outputTokenIds = request.outputTokenIds ++ [tokenId] := rfl

@[simp] theorem finishReason_recordToken : (request.recordToken tokenId).finishReason = request.finishReason := rfl

@[simp] theorem outputLen_recordToken : (request.recordToken tokenId).outputLen = request.outputLen + 1 := by
  simp [outputLen]

@[simp] theorem promptTokenIds_finish : (request.finish reason).promptTokenIds = request.promptTokenIds := rfl

@[simp] theorem params_finish : (request.finish reason).params = request.params := rfl

@[simp] theorem requestId_finish : (request.finish reason).requestId = request.requestId := rfl

@[simp] theorem outputTokenIds_finish : (request.finish reason).outputTokenIds = request.outputTokenIds := rfl

@[simp] theorem finishReason_finish : (request.finish reason).finishReason = some reason := rfl

end Request

end Nanoserve.Engine
