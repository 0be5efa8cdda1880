import Nanoserve.Lib.Channel
import Nanoserve.Lib.Replay
import Nanoserve.Router.Registry

/-! # Discovery from etcd

`router/etcd.go`.
-/

namespace Nanoserve.Router

open Lib
open Model (Text)

/-! ## Keys -/

def registryPrefix : Text := "/nanoserve/replicas/".toList

/-- `strings.TrimPrefix` -/
def keyToID (key : Text) : String :=
  String.ofList (if registryPrefix.isPrefixOf key then key.drop registryPrefix.length else key)

def endpointsOf (members : Dict String String) : List Endpoint := members.items.map fun item => ⟨item.1, item.2⟩

/-! ## The store -/

/-- The changes of every revision, from the first on. -/
abbrev Revisions := List (List (Update Text String))

def commitChange (kvs : Dict Text String) : Update Text String → Dict Text String
  | .put key value => kvs.set key value
  | .delete key => kvs.erase key

def kvsOf (history : Revisions) : Dict Text String := history.flatten.foldl commitChange .empty

/-- `Get` and `Watch` are called `WithPrefix`. -/
def underPrefix (key : Text) : Bool := registryPrefix.isPrefixOf key

/-- Reads the whole registry. -/
def snapshot (history : Revisions) : Dict String String :=
  ((kvsOf history).items.filter fun kv => underPrefix kv.1).foldl (fun members kv => members.set (keyToID kv.1) kv.2)
    .empty

/-! ## The watch loop -/

/-- The variables of `Watch` and what it has handed to `send`. -/
structure EtcdWatch where
  history : Revisions
  members : Dict String String
  rev : Nat
  watching : Bool
  position : Nat
  published : List (List Endpoint)
  furthest : Nat

inductive WatchEvent where
  | commit (changes : List (Update Text String))  -- by etcd
  | deliver (revision : Nat)  -- a response with everything up to a revision
  | die  -- the watcher ends
  | retry (answered : Bool)  -- the supervisor asks for a snapshot
deriving DecidableEq, Repr

/-- The body of the loop over `wr.Events`. -/
def applyEvent (members : Dict String String) : Update Text String → Dict String String
  | .put key value => members.set (keyToID key) value
  | .delete key => members.erase (keyToID key)

namespace EtcdWatch

/-- The loop as it is entered, after the first snapshot. -/
def start (history : Revisions) : EtcdWatch where
  history
  members := snapshot history
  rev := history.length
  watching := true
  position := history.length
  published := [endpointsOf (snapshot history)]
  furthest := history.length

/-- A response of the watcher in `consume`. -/
def consume (watch : EtcdWatch) (revision : Nat) : EtcdWatch :=
  let events := (between watch.history watch.position revision).filter fun event => underPrefix event.key
  let members := events.foldl applyEvent watch.members
  { watch with
    members
    position := revision
    published := watch.published ++ [endpointsOf members]
    furthest := max watch.furthest revision }

/-- The snapshot of the supervisor was answered. -/
def resume (watch : EtcdWatch) : EtcdWatch :=
  let members := snapshot watch.history
  { watch with
    members
    rev := watch.history.length
    watching := true
    position := watch.history.length
    published := watch.published ++ [endpointsOf members]
    furthest := max watch.furthest watch.history.length }

def step (watch : EtcdWatch) : WatchEvent → Except Unit EtcdWatch
  | .commit changes => .ok { watch with history := watch.history ++ [changes] }
  | .deliver revision =>
    if watch.watching ∧ watch.position ≤ revision ∧ revision ≤ watch.history.length then .ok (watch.consume revision)
    else .error ()
  -- `rev` stays where the last snapshot was.
  | .die => if watch.watching then .ok { watch with watching := false } else .error ()
  | .retry answered =>
    if watch.watching then .error ()
    else if answered then .ok watch.resume
    -- The next watcher starts where the last snapshot was, over the members as they are.
    else .ok { watch with watching := true, position := watch.rev }

end EtcdWatch

/-! ## Publishing -/

/-- Where the producer is in `send`. -/
inductive SendPhase (α : Type) where
  | outside
  | trying (eps : α)  -- at the first `select`
  | discarding (eps : α)  -- at the second
  | returned (eps : α)
deriving DecidableEq, Repr

/-- The channel, its producer, and what its consumer has received. -/
structure Publisher (α : Type) where
  channel : Channel α
  phase : SendPhase α := .outside
  received : List α := []

inductive PublisherEvent (α : Type) where
  | call (eps : α)
  | advance  -- the producer takes its next step
  | receive  -- the consumer takes one out
deriving DecidableEq, Repr

namespace Publisher

variable {α : Type}

/-- One `select` of `send`, while the context lives.  The second one has no default: on an
empty channel there is no step. -/
def advance (publisher : Publisher α) : Except Unit (Publisher α) :=
  match publisher.phase with
  | .trying eps =>
    match publisher.channel.trySend eps with
    | some channel => .ok { publisher with channel, phase := .returned eps }
    | none => .ok { publisher with phase := .discarding eps }
  | .discarding eps =>
    match publisher.channel.tryReceive with
    | some (_, channel) => .ok { publisher with channel, phase := .trying eps }
    | none => .error ()
  | _ => .error ()

def step (publisher : Publisher α) : PublisherEvent α → Except Unit (Publisher α)
  | .call eps =>
    match publisher.phase with
    | .outside | .returned _ => .ok { publisher with phase := .trying eps }
    | _ => .error ()
  | .advance => publisher.advance
  | .receive =>
    match publisher.channel.tryReceive with
    | some (eps, channel) => .ok { publisher with channel, received := publisher.received ++ [eps] }
    | none => .error ()

end Publisher

end Nanoserve.Router
