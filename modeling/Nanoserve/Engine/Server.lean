import Nanoserve.Engine.Session

/-! # The event loop and the engine thread

`AsyncEngine` of `engine/server.py`, with the step of the engine on a thread of its own.
-/

namespace Nanoserve.Engine

open Lib

/-! ## State -/

/-- A connection's view of one in-flight request. `done` is set exactly when there is a
`finishReason`; `received` is what the connection has taken from the queue. -/
structure AsyncEngine.Stream where
  queue : List Nat := []
  finishReason : Option FinishReason := none
  received : List Nat := []
deriving DecidableEq, Repr

/-- Where the engine thread is in `step`. -/
inductive AsyncEngine.Stage where
  | idle
  | applying  -- has swapped `_cancel_requested` for an empty set
  | admitting
  | decoding
  | returning
deriving DecidableEq, Repr

/-- The stream of a request is found at the request's address, so `streams` holds addresses. -/
structure AsyncEngine (V S : Type) where
  session : Session V S
  streams : Dict String Nat := .empty
  stream : Nat → AsyncEngine.Stream := fun _ => {}
  stage : AsyncEngine.Stage := .idle
  wanted : List String := []
  emitting : List (Nat × Nat) := []
  finishing : List Nat := []

namespace AsyncEngine

variable {X V L S : Type}

/-! ## The engine thread -/

inductive ThreadEvent where
  | take
  | apply
  | admitRequests
  | decode
  | emit
  | report
  | rest
deriving DecidableEq, Repr

/-- The engine as the thread works on it. -/
def view (server : AsyncEngine V S) : EngineState V S :=
  { server.session.engine with
    cancelRequested := server.wanted
    emitted := server.emitting
    newlyFinished := server.finishing }

/-- The thread has done a part of its work; the shared containers are as they were. -/
def put (server : AsyncEngine V S) (engine : EngineState V S) (stage : Stage) : AsyncEngine V S :=
  { server with
    session := { server.session with
      engine := { engine with
        cancelRequested := server.session.engine.cancelRequested
        emitted := server.session.engine.emitted
        newlyFinished := server.session.engine.newlyFinished } }
    stage
    wanted := engine.cancelRequested
    emitting := engine.emitted
    finishing := engine.newlyFinished }

/-- Everything has been appended. -/
def settled (server : AsyncEngine V S) : Bool := server.emitting.isEmpty && server.finishing.isEmpty

/-- Whether the thread can return: from `apply_cancellations` on the idle path, from `step` with
nothing to run. -/
def finished (server : AsyncEngine V S) : Bool :=
  match server.stage with
  | .admitting | .returning => true
  | .decoding => server.session.engine.running.isEmpty
  | _ => false

open ContinuousBatchingEngine in
/-- One event of the thread.  An event that is not due changes nothing. -/
def threadStep (cfg : Config X V L S) (server : AsyncEngine V S) :
    ThreadEvent → Except EngineError (AsyncEngine V S)
  | .take =>
    if server.stage = .idle then
      .ok { server with
        session := { server.session with engine := { server.session.engine with cancelRequested := [] } }
        stage := .applying
        wanted := server.session.engine.cancelRequested }
    else .ok server
  | .apply =>
    if server.stage = .applying ∧ server.settled then
      match applyCancellations cfg server.view with
      | .error raised => .error raised
      | .ok (_, engine) => .ok (server.put engine .admitting)
    else .ok server
  | .admitRequests =>
    if server.stage = .admitting ∧ server.settled then
      match admitRequests cfg server.view with
      | .error raised => .error raised
      | .ok (newSeqs, _, engine) => .ok (server.put { engine with running := engine.running ++ newSeqs } .decoding)
    else .ok server
  | .decode =>
    if server.stage = .decoding ∧ server.settled ∧ server.session.engine.running ≠ [] then
      match ContinuousBatchingEngine.decode cfg server.view [] with
      | .error raised => .error raised
      | .ok (_, engine) => .ok (server.put engine .returning)
    else .ok server
  | .emit =>
    match server.emitting with
    | [] => .ok server
    | entry :: emitting =>
      .ok { server with
        session := { server.session with
          engine := { server.session.engine with emitted := server.session.engine.emitted ++ [entry] } }
        emitting }
  | .report =>
    match server.finishing with
    | [] => .ok server
    | request :: finishing =>
      if request ∈ server.emitting.map Prod.fst then .ok server
      else
        .ok { server with
          session := { server.session with
            engine := { server.session.engine with newlyFinished := server.session.engine.newlyFinished ++ [request] } }
          finishing }
  | .rest => if server.finished ∧ server.settled then .ok { server with stage := .idle } else .ok server

/-! ## The event loop -/

inductive Event where
  | thread (event : ThreadEvent)
  | submit (request : Nat) (late : Bool)
  | cancel (requestId : String)
  | fanout (between : List ThreadEvent)
  | get (request : Nat)
  | release (requestId : String)
deriving DecidableEq, Repr

/-- `request.request_id` -/
def requestId (server : AsyncEngine V S) (request : Nat) : String :=
  (server.session.engine.requests request).requestId

def setStream (server : AsyncEngine V S) (request : Nat) (stream : Stream) : AsyncEngine V S :=
  { server with stream := Function.update server.stream request stream }

/-- `submit`, up to its `_fanout`.  A request object is submitted once. -/
def submit (cfg : Config X V L S) (server : AsyncEngine V S) (request : Nat) (late : Bool) : AsyncEngine V S :=
  if request ∈ server.session.submitted then server
  else
    { server.setStream request {} with
      streams := server.streams.set (server.requestId request) request
      session := { server.session with
        engine := ContinuousBatchingEngine.addRequest cfg server.session.engine request late
        submitted := server.session.submitted ++ [request] } }

/-- Put an emitted token on the queue of the stream its request id stands for. -/
def deliver (server : AsyncEngine V S) (entry : Nat × Nat) : AsyncEngine V S :=
  match server.streams.get? (server.requestId entry.1) with
  | none => server
  | some request =>
    server.setStream request { server.stream request with queue := (server.stream request).queue ++ [entry.2] }

/-- Signal that a request is done; the first reason stays. -/
def signal (server : AsyncEngine V S) (request : Nat) : AsyncEngine V S :=
  match server.streams.get? (server.requestId request), (server.session.engine.requests request).finishReason with
  | some other, some reason =>
    server.setStream other
      { server.stream other with finishReason := some ((server.stream other).finishReason.getD reason) }
  | _, _ => server

/-- The first loop of `_fanout`. -/
def fanoutEmitted (server : AsyncEngine V S) : AsyncEngine V S :=
  let (emitted, engine) := ContinuousBatchingEngine.drainEmitted server.session.engine
  let session := { server.session with engine, drainedEmitted := server.session.drainedEmitted ++ emitted }
  emitted.foldl deliver { server with session }

/-- The second loop of `_fanout`. -/
def fanoutFinished (server : AsyncEngine V S) : AsyncEngine V S :=
  let (finished, engine) := ContinuousBatchingEngine.drainFinished server.session.engine
  let session := { server.session with engine, drainedFinished := server.session.drainedFinished ++ finished }
  finished.foldl signal { server with session }

/-- `_fanout` up to its second drain; the thread does `between` after the first one. -/
def halfway (cfg : Config X V L S) (server : AsyncEngine V S) (between : List ThreadEvent) :
    Except EngineError (AsyncEngine V S) :=
  run (threadStep cfg) server.fanoutEmitted between

/-- A connection takes the next token off its queue. -/
def get (server : AsyncEngine V S) (request : Nat) : AsyncEngine V S :=
  match (server.stream request).queue with
  | [] => server
  | token :: queue =>
    server.setStream request
      { server.stream request with queue, received := (server.stream request).received ++ [token] }

def step (cfg : Config X V L S) (server : AsyncEngine V S) : Event → Except EngineError (AsyncEngine V S)
  | .thread event => threadStep cfg server event
  | .submit request late => .ok (submit cfg server request late)
  | .cancel requestId =>
    .ok { server with
      session := { server.session with
        engine := ContinuousBatchingEngine.requestCancel server.session.engine requestId } }
  | .fanout between =>
    match halfway cfg server between with
    | .error raised => .error raised
    | .ok server => .ok server.fanoutFinished
  | .get request => .ok (get server request)
  | .release requestId => .ok { server with streams := server.streams.erase requestId }

def new (cfg : Config X V L S) (numBlocks blockSize : Nat) (enablePrefixCache : Bool) (zero : V)
    (clients : Nat → Submission) (rng : S) : AsyncEngine V S where
  session := .new cfg numBlocks blockSize enablePrefixCache zero clients rng

/-- The server after a list of events. -/
def after (cfg : Config X V L S) (server : AsyncEngine V S) (events : List Event) :
    Except EngineError (AsyncEngine V S) :=
  run (step cfg) server events

/-- Every token emitted for a request so far, wherever it is on its way. -/
def emittedFor (server : AsyncEngine V S) (request : Nat) : List Nat :=
  ((server.session.drainedEmitted ++ server.session.engine.emitted ++ server.emitting).filter fun entry =>
    entry.1 = request).map Prod.snd

end AsyncEngine

end Nanoserve.Engine
