import Mathlib.Data.List.Basic

/-! # The process executor

`ProcessExecutor` of `router/executor.go`, with the children it has started.
-/

namespace Nanoserve.Router

/-- `child` is the process behind `cmd`: the how-manieth one to be started. -/
structure ReplicaProc where
  index : Nat
  port : Int
  child : Nat
deriving DecidableEq, Repr

structure ProcessExecutor where
  basePort : Int
  running : List ReplicaProc := []
  nextIdx : Nat := 0
deriving DecidableEq, Repr

/-- The executor, everything it has started, and what has become of it. -/
structure Host where
  executor : ProcessExecutor
  started : List ReplicaProc := []
  stopped : List Nat := []  -- children the executor has terminated
  crashed : List Nat := []  -- children that exited on their own
deriving DecidableEq, Repr

/-- The error reads `start replica index: …`. -/
structure StartError where
  index : Nat
deriving DecidableEq, Repr

namespace Host

/-- `cmd.Start()` went well. -/
def start (host : Host) : Host :=
  let executor := host.executor
  let replica : ReplicaProc :=
    { index := executor.nextIdx, port := executor.basePort + executor.nextIdx, child := host.started.length }
  { host with
    executor := { executor with running := executor.running ++ [replica], nextIdx := executor.nextIdx + 1 }
    started := host.started ++ [replica] }

/-- The first loop of `Scale`; `startable` says which index can be started this time. -/
def startMissing (startable : Nat → Bool) : Nat → Host → Except StartError Unit × Host
  | 0, host => (.ok (), host)
  | missing + 1, host =>
    if startable host.executor.nextIdx then startMissing startable missing host.start
    else (.error ⟨host.executor.nextIdx⟩, host)

def terminate (host : Host) (victim : ReplicaProc) : Host := { host with stopped := host.stopped ++ [victim.child] }

/-- The second loop: the one that was started last goes first. -/
def stopSurplus : Nat → Host → Host
  | 0, host => host
  | surplus + 1, host =>
    match host.executor.running.getLast? with
    | none => host
    | some victim =>
      stopSurplus surplus
        ({ host with executor := { host.executor with running := host.executor.running.dropLast } }.terminate victim)

def scale (host : Host) (desired : Int) (startable : Nat → Bool) : Except StartError Unit × Host :=
  match startMissing startable (desired - host.executor.running.length).toNat host with
  | (.error error, host) => (.error error, host)
  | (.ok (), host) => (.ok (), stopSurplus (host.executor.running.length - desired.toNat) host)

/-- What `Running` reports. -/
def running (host : Host) : Nat := host.executor.running.length

/-- The children that were started, have not been stopped and are there. -/
def alive (host : Host) : List ReplicaProc :=
  host.started.filter fun replica => decide (replica.child ∉ host.stopped) && decide (replica.child ∉ host.crashed)

end Host

inductive HostEvent where
  | scale (desired : Int) (startable : Nat → Bool)
  | crash (child : Nat)

/-- Only a child that is there can exit. -/
def Host.step (host : Host) : HostEvent → Except Unit Host
  | .scale desired startable => .ok (host.scale desired startable).2
  | .crash child =>
    if child ∈ host.alive.map ReplicaProc.child then .ok { host with crashed := host.crashed ++ [child] } else .error ()

end Nanoserve.Router
