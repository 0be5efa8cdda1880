import Nanoserve.Engine.Replica
import Nanoserve.Router.Ring

/-! # Dispatch and failover

`stream` and `attempt` of `router/proxy.go`.
-/

namespace Nanoserve.Router

open Lib Proto
open Model (Text BPETokenizer)
open Engine (Config Setup Incoming Event EngineError)

structure GenerateBody where
  prompt : Text
  maxTokens : Nat
  temperature : Rat := 0
  topK : Nat := 0
  topP : Rat := 0
  ignoreEos : Bool := false
  sloSeconds : Rat := 0
  requestId : String

structure Proxy where
  prefixLen : Nat := 128
  maxRetries : Nat := 2

/-! ## Errors -/

inductive Code where
  | canceled | unknown | invalidArgument | deadlineExceeded | notFound | alreadyExists | permissionDenied
  | resourceExhausted | failedPrecondition | aborted | outOfRange | unimplemented | internal | unavailable
  | dataLoss | unauthenticated
deriving DecidableEq, Repr

def Code.name : Code → String
  | .canceled => "Canceled"
  | .unknown => "Unknown"
  | .invalidArgument => "InvalidArgument"
  | .deadlineExceeded => "DeadlineExceeded"
  | .notFound => "NotFound"
  | .alreadyExists => "AlreadyExists"
  | .permissionDenied => "PermissionDenied"
  | .resourceExhausted => "ResourceExhausted"
  | .failedPrecondition => "FailedPrecondition"
  | .aborted => "Aborted"
  | .outOfRange => "OutOfRange"
  | .unimplemented => "Unimplemented"
  | .internal => "Internal"
  | .unavailable => "Unavailable"
  | .dataLoss => "DataLoss"
  | .unauthenticated => "Unauthenticated"

/-- Why no replica could be picked, or what an attempt failed with. -/
inductive Failure where
  | noReplicas
  | noConnection (replica : String)
  | eof
  | status (code : Code) (desc : String)
  | rejected (message : String)
deriving DecidableEq, Repr

namespace Failure

/-- `err.Error()` -/
def text : Failure → Text
  | noReplicas => "router: no replicas available".toList
  | noConnection replica => "no connection for replica ".toList ++ replica.toList
  | eof => "EOF".toList
  | status code desc => "rpc error: code = ".toList ++ code.name.toList ++ " desc = ".toList ++ desc.toList
  | rejected message => "rejected: ".toList ++ message.toList

def isRejection (failure : Failure) : Bool :=
  (match failure with
    | status code _ => code == .resourceExhausted
    | _ => false) ||
  failure.text.take 8 == "rejected".toList

end Failure

/-- What `stream` returns. -/
inductive StreamError where
  | failed (failure : Failure)
  | exhausted (replicas : Nat) (last : Failure)
deriving DecidableEq, Repr

def StreamError.text : StreamError → Text
  | failed failure => failure.text
  | exhausted replicas last => "exhausted ".toList ++ (toString replicas).toList ++ " replicas: ".toList ++ last.text

/-! ## One attempt -/

/-- A server-sent event of the response. -/
inductive ClientEvent where
  | token (text : Text) (index : Nat)
  | done (reason : Reason) (outputTokens : Nat) (replica : String)
  | rejected (reason : Text)
deriving DecidableEq, Repr

structure Visit (V S : Type) where
  ring : Ring
  connected : Bool := true
  refused : Option Failure := none  -- an error of `stub.Generate` itself
  setup : Setup V S
  others : Nat → Incoming
  call : Nat
  events : List Event
  received : Nat
  broken : Failure
  clientGone : Bool := false

/-- What an attempt reports: the token ids it delivered, and its error. -/
structure Attempt where
  delivered : List Nat
  written : List ClientEvent
  failure : Option Failure

/-- The receive loop over the chunks that arrive before `Recv` fails with `broken`. -/
def receive (replica : String) (broken : Failure) : List GenerateChunk → Attempt
  | [] => ⟨[], [], some broken⟩
  | .token token :: chunks =>
    let rest := receive replica broken chunks
    ⟨token.tokenId :: rest.delivered, .token token.text token.index :: rest.written, rest.failure⟩
  | .finish finish :: _ =>
    if finish.reason = .rejected then ⟨[], [], some (.rejected finish.message)⟩
    else ⟨[], [.done finish.reason finish.outputTokens replica], none⟩

section Cluster

variable {X V L S : Type} (cfg : Config X V L S) (tok : BPETokenizer) (proxy : Proxy) (body : GenerateBody)
  (now : Rat)

/-- Absolute, from the time the request came in; zero means none. -/
def GenerateBody.deadline (body : GenerateBody) (now : Rat) : Rat :=
  if body.sloSeconds > 0 then now + body.sloSeconds else 0

/-- The message an attempt sends; `resume` is what the client already has. -/
def GenerateBody.request (body : GenerateBody) (now : Rat) (resume : List Nat) : GenerateRequest where
  prompt := body.prompt
  params :=
    { maxTokens := body.maxTokens, temperature := body.temperature, topK := body.topK, topP := body.topP,
      ignoreEos := body.ignoreEos }
  requestId := body.requestId
  deadlineUnix := body.deadline now
  resumeTokens := resume

namespace Visit

/-- The calls made on the replica, ours among them. -/
def incoming (visit : Visit V S) (request : GenerateRequest) : Nat → Incoming :=
  Function.update visit.others visit.call { visit.others visit.call with request }

def replica (visit : Visit V S) (request : GenerateRequest) : Except EngineError (Engine.Replica V S) :=
  (Engine.Replica.new cfg tok (visit.incoming request) visit.setup).after cfg tok (visit.incoming request) visit.events

/-- The chunks of our call that reach the router. -/
def chunks (visit : Visit V S) (request : GenerateRequest) : List GenerateChunk :=
  match visit.replica cfg tok request with
  | .ok replica => (replica.rpcs visit.call).yielded.take visit.received
  | .error _ => []

end Visit

def attempt (replica : String) (resume : List Nat) (visit : Visit V S) : Attempt :=
  if ¬visit.connected then ⟨[], [], some (.noConnection replica)⟩
  else
    match visit.refused with
    | some failure => ⟨[], [], some failure⟩
    | none => receive replica visit.broken (visit.chunks cfg tok (body.request now resume))

/-! ## The loop -/

/-- The variables of `stream`, what it has written to the client, and what it has
added to the proxy's counters. -/
structure Progress where
  attempt : Nat := 0
  delivered : List Nat := []
  tried : List String := []
  lastErr : Option Failure := none
  deliveredOut : Nat := 0
  written : List ClientEvent := []
  retries : Nat := 0
  migrations : Nat := 0
  rejected : Nat := 0
deriving DecidableEq

/-- `stream` has returned. -/
structure Ended where
  progress : Progress
  err : Option StreamError
deriving DecidableEq

/-- What `stream` does with the result of an attempt. -/
def settle (progress : Progress) (result : Attempt) (clientGone : Bool) : Except Ended Progress :=
  let progress := { progress with
    deliveredOut := progress.delivered.length + result.delivered.length
    written := progress.written ++ result.written }
  match result.failure with
  | none => .error ⟨progress, none⟩
  | some failure =>
    if clientGone then .error ⟨progress, none⟩
    else if failure.isRejection then
      .error ⟨{ progress with
        written := progress.written ++ [.rejected failure.text], rejected := progress.rejected + 1 }, none⟩
    else
      let progress := { progress with
        delivered := progress.delivered ++ result.delivered
        lastErr := some failure
        attempt := progress.attempt + 1 }
      if progress.attempt ≤ proxy.maxRetries then .ok progress
      else .error ⟨progress, some (.exhausted progress.tried.length failure)⟩

/-- The replica was picked: it counts as tried, and a second choice as a retry. -/
def Progress.dispatch (progress : Progress) (replica : String) : Progress :=
  { progress with
    tried := progress.tried ++ [replica]
    retries := if progress.attempt > 0 then progress.retries + 1 else progress.retries
    migrations :=
      if progress.attempt > 0 ∧ progress.delivered ≠ [] then progress.migrations + 1 else progress.migrations }

/-- One iteration of the loop. -/
def iteration (progress : Progress) (visit : Visit V S) : Except Ended Progress :=
  match visit.ring.pickExcluding (prefixKey body.prompt proxy.prefixLen) progress.tried with
  | none => .error ⟨progress, some (.failed (progress.lastErr.getD .noReplicas))⟩
  | some (replica, _) =>
    settle proxy (progress.dispatch replica.id)
      (attempt cfg tok body now replica.id progress.delivered visit) visit.clientGone

/-- `stream` over the visits its attempts meet: still in its loop, or returned. -/
def stream (visits : List (Visit V S)) : Except Ended Progress :=
  run (iteration cfg tok proxy body now) {} visits

end Cluster

/-- The state a run of `stream` got to, returned or not. -/
def reached : Except Ended Progress → Progress
  | .ok progress => progress
  | .error ended => ended.progress

end Nanoserve.Router
