import Nanoserve.Router.Registry

/-! # Connections and the loops that keep them

`ClientPool` of `router/client.go`, and the three loops of a router around one ring.
-/

namespace Nanoserve.Router

open Lib

/-! ## The pool -/

/-- The entries of the maps `conns`, `stubs` and `addrs` under one id. -/
structure Connection where
  addr : String
  closed : Bool := false
deriving DecidableEq, Repr

structure ClientPool where
  conns : Dict String Connection := .empty

namespace ClientPool

variable (dials : String → Bool)

/-- Creates or refreshes the connection for a replica.  If the new one cannot be made,
the old one stays in the maps, closed. -/
def ensure (pool : ClientPool) (id addr : String) : ClientPool :=
  match pool.conns.get? id with
  | none => if dials addr then ⟨pool.conns.set id { addr }⟩ else pool
  | some existing =>
    if existing.addr = addr then pool
    -- The old connection is closed before the new one is made.
    else if dials addr then ⟨pool.conns.set id { addr }⟩
    else ⟨pool.conns.set id { existing with closed := true }⟩

def drop (pool : ClientPool) (id : String) : ClientPool := ⟨pool.conns.erase id⟩

/-- No result is `no connection for replica …`. -/
def stub (pool : ClientPool) (id : String) : Option Connection := pool.conns.get? id

def syncWith (pool : ClientPool) (ring : Ring) : ClientPool :=
  let wanted := ring.snapshot.map Replica.id
  let pool := ring.snapshot.foldl (fun pool replica => pool.ensure dials replica.id replica.addr) pool
  -- Replicas that have left the ring.
  let stale := pool.conns.keys.filter fun id => id ∉ wanted
  stale.foldl drop pool

end ClientPool

/-! ## The loops of a router -/

/-- A health check whose RPC is under way, with the connection it was sent on. -/
structure Probe where
  id : String
  conn : Option Connection
deriving DecidableEq, Repr

/-- `verified` is not in the code: the address of the last successful health check of an id. -/
structure Fleet where
  rc : Reconciler
  pool : ClientPool := {}
  misses : Dict String Nat := .empty
  failuresToUnready : Nat := 2
  probes : List Probe := []
  verified : Dict String String := .empty

inductive FleetEvent where
  | apply (endpoints : List Endpoint)
  | reap
  | sync
  | probe (id : String)
  | report (index : Nat) (healthy : Bool)
  | pick (key : List UInt8) (exclude : List String)
  | release (id : String)
deriving DecidableEq, Repr

/-- The address a health check was answered from, if it was. -/
def Probe.answer (probe : Probe) (healthy : Bool) : Option String :=
  match probe.conn with
  | none => none
  | some conn => if healthy && !conn.closed then some conn.addr else none

namespace Fleet

variable (dials : String → Bool)

def new (virtualNodes : Nat) (epsilon : Epsilon) : Fleet where
  rc := { ring := Ring.new virtualNodes epsilon }

def withRing (fleet : Fleet) (ring : Ring) : Fleet := { fleet with rc := { fleet.rc with ring } }

/-- The outcome of a health check reaches `checkOne`. -/
def report (fleet : Fleet) (index : Nat) (probe : Probe) (healthy : Bool) : Fleet :=
  let checker : HealthChecker :=
    { ring := fleet.rc.ring, misses := fleet.misses, failuresToUnready := fleet.failuresToUnready }
  let checked := checker.checkOne probe.id (probe.answer healthy).isSome
  { fleet.withRing checked.ring with
    misses := checked.misses
    probes := fleet.probes.eraseIdx index
    verified := (probe.answer healthy).elim fleet.verified (fleet.verified.set probe.id) }

/-- There is no event for the report of a check that is not under way. -/
def step (fleet : Fleet) : FleetEvent → Except Unit Fleet
  | .apply endpoints => .ok { fleet with rc := fleet.rc.apply endpoints }
  | .reap => .ok { fleet with rc := fleet.rc.reap }
  | .sync => .ok { fleet with pool := fleet.pool.syncWith dials fleet.rc.ring }
  | .probe id => .ok { fleet with probes := fleet.probes ++ [⟨id, fleet.pool.stub id⟩] }
  | .report index healthy =>
    match fleet.probes[index]? with
    | none => .error ()
    | some probe => .ok (fleet.report index probe healthy)
  | .pick key exclude => .ok (fleet.withRing (fleet.rc.ring.call (.pick key exclude)))
  | .release id => .ok (fleet.withRing (fleet.rc.ring.release id))

end Fleet

end Nanoserve.Router
