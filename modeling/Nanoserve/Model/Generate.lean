import Mathlib.Data.Rat.Defs
import Nanoserve.Model.Training
import Nanoserve.Model.Transformer

/-! # The reference generator

`model/generate.py`: one sequence over a growing cache, with the text yielded as it is produced.
-/

namespace Nanoserve.Model.Generate

open Lib

/-- `seed` is the state the generator of random numbers starts in. -/
structure SamplingParams where
  maxNewTokens : Int := 256
  temperature : Rat := 4 / 5
  topK : Option Nat := some 50
  topP : Option Rat := some (19 / 20)
  stopAtEos : Bool := true
deriving DecidableEq, Repr

def SamplingParams.greedy (params : SamplingParams) : Bool := params.temperature == 0

/-- How a row of logits becomes a token. -/
structure Sampling (L S : Type) where
  argmax : L → Nat
  draw : SamplingParams → L → S → Nat × S

inductive Raised where
  | keyError
  | indexError
deriving DecidableEq, Repr

/-- The variables of `generate_stream`, with everything it has yielded. -/
structure Generation (V L S : Type) where
  logits : List (List L)
  cache : DynamicCache V
  gen : S
  produced : List Nat := []
  emitted : Nat := 0
  yielded : List Text := []

section

variable {X V L S : Type} (model : NanoForCausalLM X V L) (sampling : Sampling L S) (tokenizer : BPETokenizer)
  (params : SamplingParams)

def sample (row : L) (gen : S) : Nat × S :=
  if params.greedy then (sampling.argmax row, gen) else sampling.draw params row gen

/-- `params.stop_at_eos and token == tokenizer.eos_id` -/
def stops (token : Nat) : Except Raised Bool :=
  if params.stopAtEos then
    match tokenizer.eosId with
    | none => .error .keyError
    | some eos => .ok (decide (token = eos))
  else .ok false

/-- What of the text is new goes out. -/
def Generation.yield (generation : Generation V L S) (text : Text) : Generation V L S :=
  if text.length > generation.emitted then
    { generation with yielded := generation.yielded ++ [text.drop generation.emitted], emitted := text.length }
  else generation

/-- `logits, _ = model(nxt, cache=cache)` -/
def Generation.feed (generation : Generation V L S) (tokens : List Nat) : Generation V L S :=
  match model.forward (DynamicCache.protocol Empty V) [tokens] none none generation.cache with
  | .error raised => raised.elim
  | .ok (logits, cache) => { generation with logits, cache }

/-- `for _ in range(params.max_new_tokens)` -/
def loop (generation : Generation V L S) : Nat → Except Raised (Generation V L S)
  | 0 => .ok generation
  | left + 1 =>
    match (generation.logits.headD []).getLast? with
    | none => .error .indexError
    | some row =>
      let (token, gen) := sample sampling params row generation.gen
      match stops tokenizer params token with
      | .error raised => .error raised
      | .ok true => .ok { generation with gen }
      | .ok false =>
        let produced := generation.produced ++ [token]
        match tokenizer.decode produced with
        | none => .error .keyError
        | some text =>
          -- Text that is held back goes straight to the next round.
          if Utf8.Ragged text then loop { generation with gen, produced } left
          else loop ((Generation.yield { generation with gen, produced } text).feed model [token]) left

/-- The ids of the prompt, or end-of-text if there are none. -/
def promptIds (prompt : Text) : Except Raised (List Nat) :=
  if tokenizer.encode prompt false = [] then
    match tokenizer.eosId with
    | none => .error .keyError
    | some eos => .ok [eos]
  else .ok (tokenizer.encode prompt false)

def generateStream (prompt : Text) (gen : S) : Except Raised (Generation V L S) :=
  match promptIds tokenizer prompt with
  | .error raised => .error raised
  | .ok ids =>
    loop model sampling tokenizer params (Generation.feed model { logits := [], cache := {}, gen } ids)
      params.maxNewTokens.toNat

/-- `generate` -/
def generate (prompt : Text) (gen : S) : Except Raised Text :=
  (generateStream model sampling tokenizer params prompt gen).map fun generation => generation.yielded.flatten

end

end Nanoserve.Model.Generate
