import Nanoserve.Router.Ring

/-! # Membership and readiness

`router/registry.go`.
-/

namespace Nanoserve.Router

open Lib

/-! ## Health -/

structure HealthChecker where
  ring : Ring
  misses : Dict String Nat := .empty
  failuresToUnready : Nat := 2

/-- `checkOne`.  `healthy` says that the replica answered and reported itself ready. -/
def HealthChecker.checkOne (checker : HealthChecker) (id : String) (healthy : Bool) : HealthChecker :=
  if healthy then { checker with ring := checker.ring.setReady id true, misses := checker.misses.set id 0 }
  else
    let misses := (checker.misses.get? id).getD 0 + 1
    { checker with
      ring := if checker.failuresToUnready ≤ misses then checker.ring.setReady id false else checker.ring
      misses := checker.misses.set id misses }

/-! ## Membership -/

/-- One registered replica. -/
structure Endpoint where
  id : String
  addr : String
deriving DecidableEq, Repr

/-- `orphaned` has the replicas the registry dropped but health still vouches for. -/
structure Reconciler where
  ring : Ring
  orphaned : Dict String Bool := .empty

namespace Reconciler

/-- The map `apply` starts with; of two endpoints with one id the last one counts. -/
def wanted (endpoints : List Endpoint) : Dict String String :=
  endpoints.foldl (fun wanted endpoint => wanted.set endpoint.id endpoint.addr) .empty

def isOrphaned (rc : Reconciler) (id : String) : Bool := (rc.orphaned.get? id).getD false

/-- The replica leaves the ring. -/
def drop (rc : Reconciler) (id : String) : Reconciler where
  ring := rc.ring.remove id
  orphaned := rc.orphaned.erase id

/-- What `apply` does with a replica of the snapshot. -/
def sort (wanted : Dict String String) (rc : Reconciler) (replica : Replica) : Reconciler :=
  match wanted.get? replica.id with
  | some _ => { rc with orphaned := rc.orphaned.erase replica.id }
  | none =>
    -- Gone from the registry, but it answers: discovery may be wrong.
    if replica.ready then { rc with orphaned := rc.orphaned.set replica.id true } else rc.drop replica.id

def apply (rc : Reconciler) (endpoints : List Endpoint) : Reconciler :=
  let sorted := rc.ring.snapshot.foldl (sort (wanted endpoints)) rc
  { sorted with
    ring := (wanted endpoints).items.foldl (fun ring endpoint => ring.add endpoint.1 endpoint.2) sorted.ring }

/-- What `reap` does with a replica of the snapshot. -/
def release (rc : Reconciler) (replica : Replica) : Reconciler :=
  if rc.isOrphaned replica.id && !replica.ready then rc.drop replica.id else rc

/-- Drops retained replicas once health stops vouching for them. -/
def reap (rc : Reconciler) : Reconciler :=
  if rc.orphaned.size = 0 then rc else rc.ring.snapshot.foldl release rc

end Reconciler

/-- What changes the membership of a ring and the readiness of its members. -/
inductive MembershipCall where
  | apply (endpoints : List Endpoint)
  | reap
  | setReady (id : String) (ready : Bool)
deriving DecidableEq, Repr

/-- The call comes from the registry side. -/
def MembershipCall.isRegistry : MembershipCall → Bool
  | .setReady _ _ => false
  | _ => true

namespace Reconciler

def call (rc : Reconciler) : MembershipCall → Reconciler
  | .apply endpoints => rc.apply endpoints
  | .reap => rc.reap
  | .setReady id ready => { rc with ring := rc.ring.setReady id ready }

def after (rc : Reconciler) (calls : List MembershipCall) : Reconciler := calls.foldl call rc

end Reconciler

end Nanoserve.Router
