import Mathlib.Logic.Function.Basic

/-! # Leader election

`router/election.go`, with the control loop (`Autoscaler.Run`) and the executor
(`EtcdExecutor.Scale`) it runs.
-/

namespace Nanoserve.Router

structure LeaderKey where
  rev : Nat  -- the revision it was created at
  lease : Nat
  campaigner : String
deriving DecidableEq, Repr

structure ScaleTarget where
  desired : Int
  reason : String
  decidedBy : String
  decidedAt : Nat
deriving DecidableEq, Repr

/-- A `Put` to `DesiredKey`.  The key its sender was elected with is not part of the request:
etcd cannot check it. -/
structure ScalePut where
  key : LeaderKey
  target : ScaleTarget
deriving DecidableEq, Repr

/-- A `Put` that has taken effect, and who was first in line then. -/
structure LandedPut where
  put : ScalePut
  holder : Option LeaderKey
deriving DecidableEq, Repr

/-- Where an instance is in `campaignOnce`. -/
inductive CampaignPhase where
  | idle  -- before the session, or in the backoff
  | session (lease : Nat)
  | campaigning (key : LeaderKey)
  | elected (key : LeaderKey)  -- the answer is on its way
  | leading (key : LeaderKey)  -- in `fn`, between two decisions
  | scaling (key : LeaderKey)  -- in `fn`, waiting for the `Put`
  | cancelled (key : LeaderKey)  -- `leaderCtx` has ended
deriving DecidableEq, Repr

structure Autoscalers where
  leases : List Nat := []  -- those alive
  nextLease : Nat := 0
  keys : List LeaderKey := []  -- in the order of their creation
  nextRev : Nat := 0
  phase : String → CampaignPhase := fun _ => .idle
  inFlight : List ScalePut := []
  desired : Option ScaleTarget := none
  landed : List LandedPut := []

inductive ElectionEvent where
  | connect (id : String)
  | campaign (id : String)
  | elect (id : String)
  | lead (id : String)
  | scale (id : String) (desired : Int) (reason : String) (now : Nat)
  | scaled (id : String)  -- the `Put` was answered, or was given up
  | notice (id : String)  -- the session is done, as far as the client can tell
  | resign (id : String) (answered : Bool)
  | fail (id : String)  -- `NewSession` or `Campaign` returns an error
  | expire (lease : Nat)
  | deliver (index : Nat)
  | lose (index : Nat)
deriving DecidableEq, Repr

namespace Autoscalers

def holder (cluster : Autoscalers) : Option LeaderKey := cluster.keys.head?

def withPhase (cluster : Autoscalers) (id : String) (phase : CampaignPhase) : Autoscalers :=
  { cluster with phase := Function.update cluster.phase id phase }

/-- The lease expires or is revoked. -/
def endLease (cluster : Autoscalers) (lease : Nat) : Autoscalers :=
  { cluster with
    leases := cluster.leases.filter (· ≠ lease)
    keys := cluster.keys.filter fun key => key.lease ≠ lease }

/-- Only a key that is still there is deleted. -/
def deleteKey (cluster : Autoscalers) (key : LeaderKey) : Autoscalers :=
  { cluster with keys := cluster.keys.filter (· ≠ key) }

/-- `Campaign` puts the candidate's key; under a lease that is gone it fails. -/
def campaign (cluster : Autoscalers) (id : String) (lease : Nat) : Autoscalers :=
  if lease ∈ cluster.leases then
    let key : LeaderKey := { rev := cluster.nextRev, lease, campaigner := id }
    withPhase { cluster with keys := cluster.keys ++ [key], nextRev := cluster.nextRev + 1 } id (.campaigning key)
  else cluster.withPhase id .idle

/-- `EtcdExecutor.Scale`, up to the request. -/
def scale (cluster : Autoscalers) (id : String) (key : LeaderKey) (desired : Int) (reason : String) (now : Nat) :
    Autoscalers :=
  let target : ScaleTarget := { desired, reason, decidedBy := id, decidedAt := now }
  withPhase { cluster with inFlight := cluster.inFlight ++ [⟨key, target⟩] } id (.scaling key)

def deliver (cluster : Autoscalers) (index : Nat) (put : ScalePut) : Autoscalers :=
  { cluster with
    inFlight := cluster.inFlight.eraseIdx index
    desired := some put.target
    landed := cluster.landed ++ [⟨put, cluster.holder⟩] }

def step (cluster : Autoscalers) : ElectionEvent → Except Unit Autoscalers
  | .connect id =>
    match cluster.phase id with
    | .idle =>
      let lease := cluster.nextLease
      .ok (withPhase { cluster with leases := lease :: cluster.leases, nextLease := lease + 1 } id (.session lease))
    | _ => .error ()
  | .campaign id =>
    match cluster.phase id with
    | .session lease => .ok (cluster.campaign id lease)
    | _ => .error ()
  | .elect id =>
    match cluster.phase id with
    | .campaigning key =>
      -- `waitDeletes` looks for earlier keys only, not for its own.
      if ∀ other ∈ cluster.keys, key.rev ≤ other.rev then .ok (cluster.withPhase id (.elected key)) else .error ()
    | _ => .error ()
  | .lead id =>
    match cluster.phase id with
    | .elected key => .ok (cluster.withPhase id (.leading key))
    | _ => .error ()
  | .scale id desired reason now =>
    match cluster.phase id with
    | .leading key => .ok (cluster.scale id key desired reason now)
    | _ => .error ()
  | .scaled id =>
    match cluster.phase id with
    | .scaling key => .ok (cluster.withPhase id (.leading key))
    | _ => .error ()
  | .notice id =>
    match cluster.phase id with
    | .leading key | .scaling key => .ok (cluster.withPhase id (.cancelled key))
    | _ => .error ()
  | .resign id answered =>
    match cluster.phase id with
    -- `Resign` has a context of its own; after it the loop campaigns again.
    | .cancelled key => .ok ((if answered then cluster.deleteKey key else cluster).withPhase id .idle)
    | _ => .error ()
  | .fail id =>
    match cluster.phase id with
    | .session _ | .campaigning _ | .elected _ => .ok (cluster.withPhase id .idle)
    | _ => .error ()
  | .expire lease => .ok (cluster.endLease lease)
  | .deliver index =>
    match cluster.inFlight[index]? with
    | some put => .ok (cluster.deliver index put)
    | none => .error ()
  | .lose index =>
    if index < cluster.inFlight.length then .ok { cluster with inFlight := cluster.inFlight.eraseIdx index }
    else .error ()

end Autoscalers

end Nanoserve.Router
