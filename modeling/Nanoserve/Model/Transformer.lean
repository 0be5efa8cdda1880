import Mathlib.Data.List.Basic
import Mathlib.Data.List.GetD

/-! # The transformer, as a KV cache sees it

`model/transformer.py` with the arithmetic of a single row left abstract.
-/

namespace Nanoserve.Model

/-- The weights, as functions of single rows. -/
structure NanoForCausalLM (X V L : Type) where
  numHiddenLayers : Nat
  layered : 0 < numHiddenLayers
  embedTokens : Nat → X
  kvProj : Nat → X → Nat → V
  decoderLayer : Nat → X → Nat → List V → X
  lmHead : X → L

/-- The `KVCache` protocol: append this pass's rows of one layer and return the
full rows so far, for every sequence of the batch. -/
structure KVCache (ε σ V : Type) where
  update : Nat → List (List V) → σ → Except ε (List (List V) × σ)
  len : σ → Nat

/-! ## The naive cache -/

/-- One growing run of rows per layer; `none` until the layer's first update. -/
structure DynamicCache (V : Type) where
  keys : List (Option (List (List V))) := []
deriving DecidableEq

namespace DynamicCache

variable {V : Type}

def update (layerIdx : Nat) (k : List (List V)) (cache : DynamicCache V) :
    List (List V) × DynamicCache V :=
  -- `while len(self.keys) <= layer_idx: self.keys.append(None)`
  let keys := cache.keys ++ List.replicate (layerIdx + 1 - cache.keys.length) none
  let rows := match keys.getD layerIdx none with
    | none => k
    | some previous => List.zipWith (· ++ ·) previous k
  (rows, ⟨keys.set layerIdx (some rows)⟩)

def len (cache : DynamicCache V) : Nat :=
  match cache.keys.head? with
  | some (some rows) => (rows.headD []).length
  | _ => 0

/-- `DynamicCache` behind the protocol.  It never raises. -/
def protocol (ε V : Type) : KVCache ε (DynamicCache V) V where
  update layerIdx k cache := .ok (cache.update layerIdx k)
  len := len

end DynamicCache

/-! ## Attention -/

/-- Boolean mask for `qLen` queries sitting at the end of `kvLen` keys. -/
def offsetCausalMask (qLen kvLen : Nat) : List (List Bool) :=
  (List.range qLen).map fun query =>
    (List.range kvLen).map fun key => decide (key ≤ kvLen - qLen + query)

/-- The keys query `query` of `t` may attend, out of `kvLen`: the three regimes of
`Attention.forward`. -/
def keyMask (attnMask : Option (List Bool)) (t kvLen query : Nat) : List Bool :=
  match attnMask with
  | some mask => mask
  | none =>
    if t > 1 then
      if t = kvLen then (List.range kvLen).map fun key => decide (key ≤ query)
      else (offsetCausalMask t kvLen).getD query []
    else List.replicate kvLen true

/-- The rows a mask lets through, in order. -/
def admitted {V : Type} (mask : List Bool) (rows : List V) : List V :=
  ((rows.zip mask).filter Prod.snd).map Prod.fst

namespace NanoForCausalLM

variable {ε σ X V L : Type} (model : NanoForCausalLM X V L)

/-- One layer over one sequence of the batch, given the rows its cache returned. -/
def attend (layerIdx : Nat) (attnMask : Option (List Bool)) (rows : List V) (x : List X)
    (positions : List Nat) : List X :=
  (x.zip positions).mapIdx fun query item =>
    model.decoderLayer layerIdx item.1 item.2
      (admitted (keyMask attnMask x.length rows.length query) rows)

/-- `DecoderLayer.forward`: the layer's rows go through the cache before attention. -/
def layerForward (cache : KVCache ε σ V) (attnMask : Option (List (List Bool)))
    (positionIds : List (List Nat)) (layerIdx : Nat) (x : List (List X)) (state : σ) :
    Except ε (List (List X) × σ) :=
  let kv := List.zipWith (List.zipWith (model.kvProj layerIdx)) x positionIds
  match cache.update layerIdx kv state with
  | .error raised => .error raised
  | .ok (rows, state) =>
    .ok (x.mapIdx fun b row =>
      model.attend layerIdx (attnMask.map (·.getD b [])) (rows.getD b []) row (positionIds.getD b []), state)

/-- The layers `0 .. count - 1`, one after the other. -/
def layersForward (cache : KVCache ε σ V) (attnMask : Option (List (List Bool)))
    (positionIds : List (List Nat)) (x : List (List X)) (state : σ) :
    Nat → Except ε (List (List X) × σ)
  | 0 => .ok (x, state)
  | count + 1 =>
    match layersForward cache attnMask positionIds x state count with
    | .error raised => .error raised
    | .ok (x, state) => model.layerForward cache attnMask positionIds count x state

/-- `NanoForCausalLM.forward`: logits for every token of the batch.  Positions
continue from the cache unless the caller supplies them. -/
def forward (cache : KVCache ε σ V) (inputIds : List (List Nat)) (positionIds : Option (List (List Nat)))
    (attnMask : Option (List (List Bool))) (state : σ) : Except ε (List (List L) × σ) :=
  let positions := match positionIds with
    | some positions => positions
    | none => inputIds.map fun row => List.range' (cache.len state) row.length
  let x := inputIds.map fun row => row.map model.embedTokens
  match model.layersForward cache attnMask positions x state model.numHiddenLayers with
  | .error raised => .error raised
  | .ok (hidden, state) => .ok (hidden.map fun row => row.map model.lmHead, state)

end NanoForCausalLM

end Nanoserve.Model
