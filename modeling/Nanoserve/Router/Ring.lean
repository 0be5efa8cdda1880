import Mathlib.Algebra.Order.Floor.Defs
import Mathlib.Data.List.Sort
import Mathlib.Data.Rat.Floor
import Nanoserve.Lib.Search
import Nanoserve.Model.Tokenizer

/-! # The consistent hash ring with bounded loads

`router/ring.go`. Loads are counts and are never decremented at zero, so they are natural numbers.
-/

namespace Nanoserve.Router

open Lib Model

/-! ## Hashing -/

def fnv1a (bytes : List UInt8) : UInt64 :=
  bytes.foldl (fun hash byte => (hash ^^^ byte.toUInt64) * 0x100000001b3) 0xcbf29ce484222325

def fmix64 (k : UInt64) : UInt64 :=
  let k := k ^^^ (k >>> 33)
  let k := k * 0xff51afd7ed558ccd
  let k := k ^^^ (k >>> 33)
  let k := k * 0xc4ceb9fe1a85ec53
  k ^^^ (k >>> 33)

def hashKey (bytes : List UInt8) : UInt64 := fmix64 (fnv1a bytes)

/-- The routing key of a prompt: its first `prefixLen` bytes, all of it for zero. -/
def prefixKey (prompt : Text) (prefixLen : Nat) : List UInt8 :=
  if prefixLen = 0 then utf8 prompt else (utf8 prompt).take prefixLen

/-! ## The ring -/

structure Replica where
  id : String
  addr : String
  load : Nat := 0
  ready : Bool := false
deriving DecidableEq, Repr

structure RingPoint where
  hash : UInt64
  replicaId : String
deriving DecidableEq

/-- A value that is not finite means no bound. -/
inductive Epsilon where
  | finite (value : Rat)
  | unbounded

structure Ring where
  virtualNodes : Nat
  epsilon : Epsilon
  replicas : Dict String Replica := .empty
  points : List RingPoint := []

def ceilDiv (a b : Rat) : Int := if a / b = ⌊a / b⌋ then ⌊a / b⌋ else ⌊a / b⌋ + 1

/-- `ceil((1+epsilon) * total / n)`, with a floor of 1. -/
def loadCap (total n : Nat) : Epsilon → Nat
  | .unbounded => if n = 0 then 0 else 2147483647
  | .finite epsilon => if n = 0 then 0 else max 1 (ceilDiv ((1 + epsilon) * total) n).toNat

namespace Ring

def new (virtualNodes : Nat) (epsilon : Epsilon) : Ring where
  virtualNodes := if virtualNodes = 0 then 150 else virtualNodes
  epsilon :=
    match epsilon with
    | .finite value => .finite (if value < 0 then 1 / 4 else value)
    | .unbounded => .unbounded

def sortPoints (points : List RingPoint) : List RingPoint :=
  points.foldr (List.orderedInsert fun first second => first.hash ≤ second.hash) []

def pointsOf (virtualNodes : Nat) (id : String) : List RingPoint :=
  (List.range virtualNodes).map fun i => ⟨hashKey (utf8 (id.toList ++ '#' :: (toString i).toList)), id⟩

/-- A new replica is unready until a health check says otherwise. -/
def add (ring : Ring) (id addr : String) : Ring :=
  match ring.replicas.get? id with
  | some existing => { ring with replicas := ring.replicas.set id { existing with addr } }
  | none =>
    { ring with
      replicas := ring.replicas.set id { id, addr }
      points := sortPoints (ring.points ++ pointsOf ring.virtualNodes id) }

def remove (ring : Ring) (id : String) : Ring :=
  match ring.replicas.get? id with
  | none => ring
  | some _ =>
    { ring with replicas := ring.replicas.erase id, points := ring.points.filter fun point => point.replicaId ≠ id }

def setReady (ring : Ring) (id : String) (ready : Bool) : Ring :=
  match ring.replicas.get? id with
  | none => ring
  | some replica => { ring with replicas := ring.replicas.set id { replica with ready } }

/-- The points are sorted, so the binary search ends at the first one at or after `hash`. -/
def search (ring : Ring) (hash : UInt64) : Nat :=
  let index := ring.points.findIdx fun point => decide (hash ≤ point.hash)
  if index = ring.points.length then 0 else index

/-- The same with the binary search of `sort.Search` written out. -/
def searchSlice (ring : Ring) (hash : UInt64) : Nat :=
  let index := searchList ring.points fun point => decide (hash ≤ point.hash)
  if index = ring.points.length then 0 else index

def readyReplicas (ring : Ring) : List Replica := ring.replicas.values.filter Replica.ready

/-- The walk: the first ready replica under the limit, each considered once. -/
def walk (ring : Ring) (exclude : List String) (limit ready : Nat) : List String → List RingPoint → Option Replica
  | _, [] => none
  | seen, point :: points =>
    if seen.length < ready then
      if point.replicaId ∈ seen then walk ring exclude limit ready seen points
      else
        match ring.replicas.get? point.replicaId with
        | none => walk ring exclude limit ready seen points
        | some replica =>
          if ¬replica.ready then walk ring exclude limit ready seen points
          else if point.replicaId ∈ exclude then walk ring exclude limit ready (point.replicaId :: seen) points
          else if replica.load < limit then some replica
          else walk ring exclude limit ready (point.replicaId :: seen) points
    else none

/-- The fallback: a ready replica of the least load, among several the first in the order of the map. -/
def leastLoaded (ring : Ring) (exclude : List String) : Option Replica :=
  (ring.replicas.items.filter fun item => decide (item.1 ∉ exclude) && item.2.ready).foldl (fun best item =>
    match best with
    | none => some item.2
    | some replica => if item.2.load < replica.load then some item.2 else best) none

/-- `rep.Load++; return rep` -/
def take (ring : Ring) (replica : Replica) : Replica × Ring :=
  let taken := { replica with load := replica.load + 1 }
  (taken, { ring with replicas := ring.replicas.set replica.id taken })

/-- No result is `ErrNoReplicas`. -/
def pickExcluding (ring : Ring) (key : List UInt8) (exclude : List String) : Option (Replica × Ring) :=
  let ready := ring.readyReplicas.length
  if ring.points = [] ∨ ready = 0 then none
  else
    let limit := loadCap ((ring.readyReplicas.map Replica.load).sum + 1) ready ring.epsilon
    let start := ring.search (hashKey key)
    match ring.walk exclude limit ready [] (ring.points.drop start ++ ring.points.take start) with
    | some replica => some (ring.take replica)
    | none => (ring.leastLoaded exclude).map ring.take

def release (ring : Ring) (id : String) : Ring :=
  match ring.replicas.get? id with
  | none => ring
  | some replica => { ring with replicas := ring.replicas.set id { replica with load := replica.load - 1 } }

/-- Go goes through a map in another order every time. The replica comes last from now on; any order
is some list of these. -/
def reorder (ring : Ring) (id : String) : Ring :=
  match ring.replicas.get? id with
  | none => ring
  | some replica => { ring with replicas := (ring.replicas.erase id).set id replica }

/-- A copy of the replicas, by id. -/
def snapshot (ring : Ring) : List Replica :=
  ring.replicas.values.insertionSort fun first second => first.id ≤ second.id

def readyCount (ring : Ring) : Nat := ring.readyReplicas.length

end Ring

/-! ## Calls on a ring -/

inductive RingCall where
  | add (id addr : String)
  | remove (id : String)
  | setReady (id : String) (ready : Bool)
  | pick (key : List UInt8) (exclude : List String)
  | release (id : String)
  | reorder (id : String)  -- by the runtime
deriving DecidableEq, Repr

namespace Ring

/-- The ring after a call.  A pick that finds nobody leaves it as it is. -/
def call (ring : Ring) : RingCall → Ring
  | .add id addr => ring.add id addr
  | .remove id => ring.remove id
  | .setReady id ready => ring.setReady id ready
  | .pick key exclude => ((ring.pickExcluding key exclude).map Prod.snd).getD ring
  | .release id => ring.release id
  | .reorder id => ring.reorder id

def after (ring : Ring) (calls : List RingCall) : Ring := calls.foldl call ring

end Ring

end Nanoserve.Router
