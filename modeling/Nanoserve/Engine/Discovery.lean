import Mathlib.Data.List.Basic

/-! # Registration of a replica

`engine/discovery.py`: `ReplicaRegistration` with its renewal thread, `stop()`, which another thread
calls, and the part of etcd they use: leases, and the replica's key under one of them. One event is
one step of either thread, or of etcd. Nothing is said about time: a lease may end, `join` may give
up and a call may be answered, fail, or be carried out with its answer lost at any moment.
-/

namespace Nanoserve.Engine

/-- The replica's key: its value and the lease it is attached to. -/
structure KeyEntry where
  value : String
  lease : Nat
deriving DecidableEq, Repr

/-- Where a thread is in `_announce`. -/
inductive AnnounceStage where
  | granting
  | putting (lease : Nat) (applied : Bool)
  | recording (lease : Nat)
deriving DecidableEq, Repr

/-- Where the renewal is: in `start()`, then in `_renew_forever`. -/
inductive RenewalPhase where
  | starting (stage : AnnounceStage)
  | raised
  | waiting  -- at `self._stop.wait(interval)`
  | renewing  -- in `keepalive`
  | retrying  -- at the test of the inner loop
  | announcing (stage : AnnounceStage)
  | backingOff  -- at `self._stop.wait(backoff)`
  | exited
deriving DecidableEq, Repr

namespace RenewalPhase

def stage? : RenewalPhase → Option AnnounceStage
  | starting stage | announcing stage => some stage
  | _ => none

def goOn (phase : RenewalPhase) (stage : AnnounceStage) : RenewalPhase :=
  match phase with
  | starting _ => starting stage
  | _ => announcing stage

/-- `_announce` raises: so does `start()`, while the loop comes back later. -/
def giveUp : RenewalPhase → RenewalPhase
  | starting _ => raised
  | _ => backingOff

def isStarted : RenewalPhase → Bool
  | starting _ | raised => false
  | _ => true

end RenewalPhase

/-- Where the other thread is in `stop()`. -/
inductive StopPhase where
  | running  -- not called yet
  | joining
  | revoking (lease : Nat)
  | returned (revoked : Bool)
deriving DecidableEq, Repr

inductive Reply where
  | answered
  | failed
  | lost  -- carried out, with the response lost
deriving DecidableEq, Repr

structure Registration where
  addr : String
  leases : List Nat := []  -- those alive
  nextLease : Nat := 0
  entry : Option KeyEntry := none
  inFlight : List KeyEntry := []
  lease : Option Nat := none
  stopSet : Bool := false
  thread : RenewalPhase := .starting .granting
  stopper : StopPhase := .running
  reannounceCount : Nat := 0
deriving DecidableEq, Repr

inductive RegistrationEvent where
  | grant (reply : Reply)
  | sendPut
  | applyPut (index : Nat)  -- by etcd
  | losePut (index : Nat)
  | putAnswered
  | putFailed
  | record
  | tick
  | renewed (alive : Bool)
  | retry
  | wake
  | expire (lease : Nat)
  | stop
  | joined
  | revoke (reply : Reply)
deriving DecidableEq, Repr

namespace Registration

def granted (reg : Registration) : Registration :=
  { reg with leases := reg.nextLease :: reg.leases, nextLease := reg.nextLease + 1 }

/-- The lease expires or is revoked, and the key with it if it is attached to it. -/
def endLease (reg : Registration) (lease : Nat) : Registration :=
  { reg with
    leases := reg.leases.filter (· ≠ lease)
    entry := reg.entry.filter fun entry => entry.lease ≠ lease }

/-- A `put` under a lease that is gone is refused. -/
def applyPut (reg : Registration) (index : Nat) (put : KeyEntry) : Registration :=
  let reg := { reg with inFlight := reg.inFlight.eraseIdx index }
  if put.lease ∈ reg.leases then
    let thread :=
      if reg.thread.stage? = some (.putting put.lease false) then reg.thread.goOn (.putting put.lease true) else reg.thread
    { reg with entry := some put, thread }
  else reg

/-- The end of `_announce`, and what its caller does then. -/
def record (reg : Registration) (lease : Nat) : Registration :=
  let again := reg.thread.isStarted
  { reg with
    lease := some lease
    thread := .waiting
    reannounceCount := if again then reg.reannounceCount + 1 else reg.reannounceCount }

def step (reg : Registration) : RegistrationEvent → Except Unit Registration
  | .grant reply =>
    match reg.thread.stage? with
    | some .granting =>
      match reply with
      | .answered => .ok { reg.granted with thread := reg.thread.goOn (.putting reg.nextLease false) }
      | .failed => .ok { reg with thread := reg.thread.giveUp }
      | .lost => .ok { reg.granted with thread := reg.thread.giveUp }
    | _ => .error ()
  | .sendPut =>
    match reg.thread.stage? with
    | some (.putting lease _) => .ok { reg with inFlight := reg.inFlight ++ [⟨reg.addr, lease⟩] }
    | _ => .error ()
  | .applyPut index =>
    match reg.inFlight[index]? with
    | some put => .ok (reg.applyPut index put)
    | none => .error ()
  | .losePut index =>
    if index < reg.inFlight.length then .ok { reg with inFlight := reg.inFlight.eraseIdx index } else .error ()
  | .putAnswered =>
    match reg.thread.stage? with
    | some (.putting lease true) => .ok { reg with thread := reg.thread.goOn (.recording lease) }
    | _ => .error ()
  | .putFailed =>
    match reg.thread.stage? with
    | some (.putting _ _) => .ok { reg with thread := reg.thread.giveUp }
    | _ => .error ()
  | .record =>
    match reg.thread.stage? with
    | some (.recording lease) => .ok (reg.record lease)
    | _ => .error ()
  | .tick =>
    match reg.thread with
    -- `_stop.wait` at the head of the loop.
    | .waiting => .ok { reg with thread := if reg.stopSet then .exited else .renewing }
    | _ => .error ()
  | .renewed alive =>
    match reg.thread with
    | .renewing => .ok { reg with thread := if reg.lease.isSome ∧ alive then .waiting else .retrying }
    | _ => .error ()
  | .retry =>
    match reg.thread with
    | .retrying => .ok { reg with thread := if reg.stopSet then .waiting else .announcing .granting }
    | _ => .error ()
  | .wake =>
    match reg.thread with
    | .backingOff => .ok { reg with thread := if reg.stopSet then .exited else .retrying }
    | _ => .error ()
  | .expire lease => .ok (reg.endLease lease)
  | .stop =>
    match reg.stopper with
    | .running =>
      -- `start` announces before it returns, so there is nothing to stop until then.
      if reg.thread.isStarted then .ok { reg with stopSet := true, stopper := .joining } else .error ()
    | _ => .error ()
  | .joined =>
    -- The thread has ended, or five seconds have gone by.
    match reg.stopper with
    | .joining => .ok { reg with stopper := reg.lease.elim (.returned false) .revoking }
    | _ => .error ()
  | .revoke reply =>
    match reg.stopper with
    | .revoking lease =>
      match reply with
      | .answered =>
        if lease ∈ reg.leases then .ok { reg.endLease lease with lease := none, stopper := .returned true } else .error ()
      | .failed => .ok { reg with lease := none, stopper := .returned false }
      | .lost => .ok { reg.endLease lease with lease := none, stopper := .returned false }
    | _ => .error ()

end Registration

/-! ## Prefix scans -/

/-- The loop of `_range_end`, with `i + 1` bytes to look at. -/
def rangeEndFrom (raw : List UInt8) : Nat → List UInt8
  | 0 => [0]
  | i + 1 =>
    if raw.getD i 0 < 0xFF then (raw.set i (raw.getD i 0 + 1)).take (i + 1) else rangeEndFrom (raw.set i 0) i

/-- `_range_end`, from bytes to bytes. -/
def rangeEnd (raw : List UInt8) : List UInt8 := rangeEndFrom raw raw.length

/-- Whether etcd counts `key` to a range.  A single zero byte for its end leaves the range
open. -/
def inRange (start stop key : List UInt8) : Prop := start ≤ key ∧ (stop = [0] ∨ key < stop)

end Nanoserve.Engine
