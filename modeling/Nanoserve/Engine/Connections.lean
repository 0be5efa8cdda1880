import Nanoserve.Engine.Replica
import Nanoserve.Engine.Server

/-! # Connections

The two front ends of the engine, `_token_stream` of `engine/server.py` and `Generate` of
`engine/replica.py`, read the tokens of a stream and send text for them in the same loop.
-/

namespace Nanoserve.Engine

open Lib Proto
open Model (Text BPETokenizer)

/-! ## Messages -/

/-- What a front end sends: before the loop, for a piece of text, and after the loop.
Only the pieces carry text. -/
structure Door (μ : Type) where
  opening : List μ
  piece (index tokenId : Nat) (text : Text) : μ
  ending (reason : FinishReason) (outputTokens : Nat) : μ
  textOf (message : μ) : Text
  opening_silent : opening.flatMap textOf = []
  textOf_piece : ∀ index tokenId text, textOf (piece index tokenId text) = text
  ending_silent : ∀ reason outputTokens, textOf (ending reason outputTokens) = []

/-- The events of `/generate`. -/
inductive ServerSentEvent where
  | start (requestId : String)
  | token (text : Text)
  | done (requestId : String) (finishReason : FinishReason) (outputTokens : Nat)
deriving DecidableEq, Repr

def ServerSentEvent.textOf : ServerSentEvent → Text
  | .token text => text
  | _ => []

def chunkText : GenerateChunk → Text
  | .token token => token.text
  | .finish _ => []

namespace Door

/-- `_token_stream` -/
def tokenStream (requestId : String) : Door ServerSentEvent where
  opening := [.start requestId]
  piece _ _ text := .token text
  ending finishReason outputTokens := .done requestId finishReason outputTokens
  textOf := ServerSentEvent.textOf
  opening_silent := rfl
  textOf_piece _ _ _ := rfl
  ending_silent _ _ := rfl

/-- `Generate`, resumed after `base` tokens. -/
def generate (base : Nat) : Door GenerateChunk where
  opening := []
  piece index tokenId text := .token { text, tokenId, index := base + index }
  ending reason outputTokens := .finish { reason := finishOf reason, outputTokens := base + outputTokens }
  textOf := chunkText
  opening_silent := rfl
  textOf_piece _ _ _ := rfl
  ending_silent _ _ := rfl

end Door

/-! ## One connection -/

inductive Connection.Stage where
  | absent
  | refused  -- rejected on the spot
  | reading  -- in the `while` loop
  | raised  -- out of it with an exception
  | done
deriving DecidableEq, Repr

structure Connection (μ : Type) where
  stage : Connection.Stage := .absent
  cursor : Cursor := {}
  sent : List μ := []
deriving DecidableEq, Repr

namespace Connection

variable {μ : Type}

def opened (door : Door μ) : Connection μ where
  stage := .reading
  sent := door.opening

/-- A token from the queue. -/
def accept (door : Door μ) (tok : BPETokenizer) (connection : Connection μ) (tokenId : Nat) : Connection μ :=
  match connection.cursor.accept tok tokenId with
  | none => { connection with stage := .raised }
  | some (cursor, none) => { connection with cursor }
  | some (cursor, some text) =>
    { connection with
      cursor
      sent := connection.sent ++ [door.piece connection.cursor.emitted.length tokenId text] }

/-- Out of the loop, and what comes after it. -/
def close (door : Door μ) (connection : Connection μ) (stream : AsyncEngine.Stream) : Connection μ :=
  { connection with
    stage := .done
    sent := connection.sent ++
      [door.ending (stream.finishReason.getD .cancelled) connection.cursor.produced.length] }

/-- One iteration of the `while` loop; with nothing on the queue the wait times out. -/
def poll (door : Door μ) (tok : BPETokenizer) (connection : Connection μ) (stream : AsyncEngine.Stream)
    (disconnected : Bool) : Connection μ :=
  if disconnected then connection.close door stream
  else
    match stream.queue with
    | tokenId :: _ => connection.accept door tok tokenId
    | [] => if stream.finishReason.isSome then connection.close door stream else connection

end Connection

/-! ## The front end -/

structure Frontend (V S μ : Type) where
  server : AsyncEngine V S
  connections : Nat → Connection μ := fun _ => {}

namespace Frontend

inductive Event where
  | server (event : AsyncEngine.Event)
  | attend (request : Nat)
  | poll (request : Nat) (disconnected : Bool)
deriving DecidableEq, Repr

variable {X V L S μ : Type}

def setConnection (frontend : Frontend V S μ) (request : Nat) (connection : Connection μ) : Frontend V S μ :=
  { frontend with connections := Function.update frontend.connections request connection }

/-- The caller of `submit` goes on. -/
def attend (door : Nat → Door μ) (frontend : Frontend V S μ) (request : Nat) : Frontend V S μ :=
  if (frontend.connections request).stage = .absent ∧ request ∈ frontend.server.session.submitted then
    if (frontend.server.session.engine.requests request).finishReason = some .rejected then
      { frontend with
        server := { frontend.server with
          streams := frontend.server.streams.erase (frontend.server.requestId request) } }.setConnection request
            { frontend.connections request with stage := .refused }
    else frontend.setConnection request (.opened (door request))
  else frontend

def poll (door : Nat → Door μ) (tok : BPETokenizer) (frontend : Frontend V S μ) (request : Nat)
    (disconnected : Bool) : Frontend V S μ :=
  let connection := frontend.connections request
  if connection.stage = .reading then
    { frontend with
      server := if disconnected then frontend.server else frontend.server.get request }.setConnection request
        (connection.poll (door request) tok (frontend.server.stream request) disconnected)
  else frontend

def step (cfg : Config X V L S) (door : Nat → Door μ) (tok : BPETokenizer) (frontend : Frontend V S μ) :
    Event → Except EngineError (Frontend V S μ)
  | .server (.get _) => .ok frontend  -- a queue is read by its connection only
  | .server event =>
    match AsyncEngine.step cfg frontend.server event with
    | .error raised => .error raised
    | .ok server => .ok { frontend with server }
  | .attend request => .ok (frontend.attend door request)
  | .poll request disconnected => .ok (frontend.poll door tok request disconnected)

def new (cfg : Config X V L S) (numBlocks blockSize : Nat) (enablePrefixCache : Bool) (zero : V)
    (clients : Nat → Submission) (rng : S) : Frontend V S μ where
  server := .new cfg numBlocks blockSize enablePrefixCache zero clients rng

/-- The front end after a list of events. -/
def after (cfg : Config X V L S) (door : Nat → Door μ) (tok : BPETokenizer) (frontend : Frontend V S μ)
    (events : List Event) : Except EngineError (Frontend V S μ) :=
  run (step cfg door tok) frontend events

end Frontend

end Nanoserve.Engine
