import Nanoserve.Engine.Session
import Nanoserve.Proto.Inference

/-! # One replica behind the wire contract

`engine/replica.py`, and of `engine/server.py` the `AsyncEngine` it drives.
-/

namespace Nanoserve.Engine

open Lib Proto
open Model (Text BPETokenizer)

/-! ## Calls -/

/-- What one call of `Generate` brings: the message, and the id `uuid4` would make
up for it. -/
structure Incoming where
  request : GenerateRequest
  uuid : String := ""

namespace Incoming

def reqId (incoming : Incoming) : String :=
  if incoming.request.requestId = "" then "req-" ++ incoming.uuid else incoming.request.requestId

def promptIds (tok : BPETokenizer) (incoming : Incoming) : List Nat := tok.encodeOrdinary incoming.request.prompt

def base (incoming : Incoming) : Nat := incoming.request.resumeTokens.length

/-- `max(1, int(p.max_tokens) - len(resume))` -/
def remaining (incoming : Incoming) : Nat := max 1 (incoming.request.params.maxTokens - incoming.base)

def params (incoming : Incoming) : SamplingParams where
  maxTokens := incoming.remaining
  temperature := incoming.request.params.temperature
  topK := if incoming.request.params.topK = 0 then none else some incoming.request.params.topK
  topP := if incoming.request.params.topP = 0 then none else some incoming.request.params.topP
  ignoreEos := incoming.request.params.ignoreEos

/-- The ids of the prompt. -/
def context (tok : BPETokenizer) (incoming : Incoming) : List Nat :=
  if incoming.promptIds tok = [] then [0] else incoming.promptIds tok

/-- The `engine_req` of the call. -/
def submission (tok : BPETokenizer) (incoming : Incoming) : Submission where
  promptTokenIds := incoming.context tok ++ incoming.request.resumeTokens
  params := incoming.params
  requestId := incoming.reqId
  nonempty := by
    simp only [context]
    split <;> simp_all

end Incoming

inductive Stage where
  | absent
  | streaming  -- in the `while` loop
  | following (owner : Nat)  -- in `_follow`, the `Finish` still to come
  | leaving  -- out of the loop, `finally` not entered yet
  | closing  -- waiting for its cancellation to be applied
  | ended
deriving DecidableEq, Repr

/-- The loop variables of `Generate`, and the entries of its `InFlight` object. -/
structure Cursor where
  produced : List Nat := []
  emittedChars : Nat := 0
  emitted : List (Nat × Text) := []
deriving DecidableEq, Repr

/-- A call of `Generate`: where it is, its `Stream` (`done` is set exactly when there is a
`finishReason`), its variables. -/
structure Rpc where
  stage : Stage := .absent
  queue : List Nat := []
  finishReason : Option FinishReason := none
  cursor : Cursor := {}
  yielded : List GenerateChunk := []
deriving DecidableEq, Repr

/-- Explicit rather than by name, as in the source. -/
def finishOf : FinishReason → Reason
  | .eos => .eos
  | .length => .length
  | .cancelled => .cancelled
  | .rejected => .rejected
  | .preempted => .preempted

namespace Cursor

/-- One token, and the piece of text to send for it if there is one. -/
def accept (tok : BPETokenizer) (cursor : Cursor) (tokenId : Nat) : Option (Cursor × Option Text) :=
  let produced := cursor.produced ++ [tokenId]
  match tok.decode produced with
  | none => none
  | some text =>
    if Utf8.Ragged text then some ({ cursor with produced }, none)
    else if text.length > cursor.emittedChars then
      let piece := text.drop cursor.emittedChars
      some (⟨produced, text.length, cursor.emitted ++ [(tokenId, piece)]⟩, some piece)
    else some ({ cursor with produced }, none)

/-- The Token messages of the entries, counted from `base`. -/
def tokens (base : Nat) (cursor : Cursor) : List Token :=
  cursor.emitted.mapIdx fun index entry => { text := entry.2, tokenId := entry.1, index := base + index }

end Cursor

namespace Rpc

def yield (rpc : Rpc) (chunks : List GenerateChunk) (stage : Stage) : Rpc :=
  { rpc with yielded := rpc.yielded ++ chunks, stage }

def accept (tok : BPETokenizer) (base : Nat) (rpc : Rpc) (tokenId : Nat) : Rpc :=
  match rpc.cursor.accept tok tokenId with
  | none => { rpc with stage := .leaving }
  | some (cursor, none) => { rpc with cursor }
  | some (cursor, some text) =>
    let index := base + rpc.cursor.emitted.length
    { rpc with cursor, yielded := rpc.yielded ++ [.token { text, tokenId, index }] }

/-- One iteration of the `while` loop. -/
def loop (tok : BPETokenizer) (base : Nat) (rpc : Rpc) (cancelled : Bool) : Rpc :=
  let finish : GenerateChunk :=
    .finish { reason := finishOf (rpc.finishReason.getD .cancelled), outputTokens := base + rpc.cursor.produced.length }
  if cancelled then rpc.yield [finish] .leaving
  else
    match rpc.queue with
    | tokenId :: queue => accept tok base { rpc with queue } tokenId
    | [] => if rpc.finishReason.isSome then rpc.yield [finish] .leaving else rpc

/-- What `_follow` replays of another call: its entries, counted from zero. -/
def replay (owner : Rpc) : List GenerateChunk := (owner.cursor.tokens 0).map .token

end Rpc

/-! ## The replica -/

structure Replica (V S : Type) where
  session : Session V S
  streams : Dict String Nat := .empty
  inflight : Dict String Nat := .empty
  draining : Bool := false
  rpcs : Nat → Rpc := fun _ => {}

/-- What a replica is started with, the model and the tokenizer apart. -/
structure Setup (V S : Type) where
  numBlocks : Nat
  blockSize : Nat
  enablePrefixCache : Bool := true
  zero : V
  rng : S
  positive : 0 < blockSize

inductive Event where
  | arrive (call : Nat) (late : Bool)
  | poll (call : Nat) (cancelled : Bool)
  | leave (call : Nat)
  | close (call : Nat)
  | step
  | applyCancellations
  | fanout
  | drain
deriving DecidableEq, Repr

namespace Replica

variable {X V L S : Type}

def set (replica : Replica V S) (call : Nat) (rpc : Rpc) : Replica V S :=
  { replica with rpcs := Function.update replica.rpcs call rpc }

/-! ## `AsyncEngine` -/

/-- Put an emitted token on the queue of the stream its request id stands for. -/
def deliver (replica : Replica V S) (entry : Nat × Nat) : Replica V S :=
  match replica.streams.get? (replica.session.engine.requests entry.1).requestId with
  | none => replica
  | some call =>
    replica.set call { replica.rpcs call with queue := (replica.rpcs call).queue ++ [entry.2] }

/-- Signal that a request is done; the first reason stays. -/
def signal (replica : Replica V S) (request : Nat) : Replica V S :=
  match replica.streams.get? (replica.session.engine.requests request).requestId,
    (replica.session.engine.requests request).finishReason with
  | some call, some reason =>
    replica.set call
      { replica.rpcs call with finishReason := some ((replica.rpcs call).finishReason.getD reason) }
  | _, _ => replica

/-- `_fanout`: everything emitted, then everything finished. -/
def fanout (replica : Replica V S) : Replica V S :=
  let (emitted, engine) := ContinuousBatchingEngine.drainEmitted replica.session.engine
  let session := { replica.session with engine, drainedEmitted := replica.session.drainedEmitted ++ emitted }
  let replica := emitted.foldl deliver { replica with session }
  let (finished, engine) := ContinuousBatchingEngine.drainFinished replica.session.engine
  let session := { replica.session with engine, drainedFinished := replica.session.drainedFinished ++ finished }
  finished.foldl signal { replica with session }

def onEngine (cfg : Config X V L S) (replica : Replica V S) (call : Call) : Except EngineError (Replica V S) :=
  match replica.session.call cfg call with
  | .error raised => .error raised
  | .ok session => .ok { replica with session }

/-! ## `InferenceServicer` -/

variable (cfg : Config X V L S) (tok : BPETokenizer) (incoming : Nat → Incoming)

/-- The call's entries under its id. -/
def register (replica : Replica V S) (call : Nat) : Replica V S :=
  { replica with
    inflight := replica.inflight.set (incoming call).reqId call
    streams := replica.streams.set (incoming call).reqId call }.set call
      { replica.rpcs call with stage := .streaming }

/-- Take the call's entries out again. -/
def unregister (replica : Replica V S) (call : Nat) : Replica V S :=
  { replica with
    inflight := replica.inflight.erase (incoming call).reqId
    streams := replica.streams.erase (incoming call).reqId }

/-- Hand the request to the engine, which may reject it on the spot. -/
def submit (replica : Replica V S) (call : Nat) (late : Bool) : Except EngineError (Replica V S) :=
  match onEngine cfg (replica.register incoming call) (.addRequest call late) with
  | .error raised => .error raised
  | .ok replica =>
    let replica := replica.fanout
    let request := replica.session.engine.requests call
    if request.finishReason = some .rejected then
      let answer := .finish { reason := .rejected, outputTokens := 0, message := request.rejectionReason }
      .ok ((replica.unregister incoming call).set call ((replica.rpcs call).yield [answer] .ended))
    else .ok replica

/-- `Generate`, up to its loop. -/
def generate (replica : Replica V S) (call : Nat) (late : Bool) : Except EngineError (Replica V S) :=
  let rpc := replica.rpcs call
  if replica.draining then
    let answer := .finish { reason := .rejected, outputTokens := 0, message := "replica is draining" }
    .ok (replica.set call (rpc.yield [answer] .ended))
  else
    match replica.inflight.get? (incoming call).reqId with
    | some owner => .ok (replica.set call (rpc.yield (replica.rpcs owner).replay (.following owner)))
    | none =>
      if (incoming call).promptIds tok = [] then
        let answer := .finish { reason := .error, outputTokens := 0, message := "prompt encodes to zero tokens" }
        .ok (replica.set call (rpc.yield [answer] .ended))
      else submit cfg incoming replica call late

def poll (replica : Replica V S) (call : Nat) (cancelled : Bool) : Replica V S :=
  let rpc := replica.rpcs call
  match rpc.stage with
  | .streaming => replica.set call (rpc.loop tok (incoming call).base cancelled)
  | .following owner =>
    let answer := .finish
      { reason := .cancelled, outputTokens := (replica.rpcs owner).cursor.emitted.length, message := "duplicate request_id" }
    replica.set call (rpc.yield [answer] .ended)
  | _ => replica

/-- One event.  An event that the stage of its call does not allow changes nothing. -/
def step (replica : Replica V S) : Event → Except EngineError (Replica V S)
  | .arrive call late =>
    if (replica.rpcs call).stage = .absent then generate cfg tok incoming replica call late else .ok replica
  | .poll call cancelled => .ok (poll tok incoming replica call cancelled)
  | .leave call =>
    -- `finally` is entered from the end of the `try` block, or because the call was killed in it.
    if (replica.rpcs call).stage = .streaming ∨ (replica.rpcs call).stage = .leaving then
      onEngine cfg (replica.set call { replica.rpcs call with stage := .closing })
        (.requestCancel (incoming call).reqId)
    else .ok replica
  | .close call =>
    if (replica.rpcs call).stage = .closing then
      let replica := replica.fanout
      .ok ((replica.unregister incoming call).set call { replica.rpcs call with stage := .ended })
    else .ok replica
  | .step => onEngine cfg replica .step
  | .applyCancellations => onEngine cfg replica .applyCancellations
  | .fanout => .ok replica.fanout
  | .drain => .ok { replica with draining := true }

def new (setup : Setup V S) : Replica V S where
  session := .new cfg setup.numBlocks setup.blockSize setup.enablePrefixCache setup.zero
    (fun call => (incoming call).submission tok) setup.rng

/-- The replica after a list of events. -/
def after (replica : Replica V S) (events : List Event) : Except EngineError (Replica V S) :=
  run (step cfg tok incoming) replica events

end Replica

end Nanoserve.Engine
