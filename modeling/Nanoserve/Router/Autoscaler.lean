import Mathlib.Data.Rat.Floor

/-! # The scaling decision

`router/autoscaler.go`: the policy, and `Decide` with the history of raw counts it stabilizes over.
-/

namespace Nanoserve.Router

/-- What the autoscaler uses of `float64` and of `fmt`. -/
class Float64 (F : Type) where
  ofRat : Rat → F  -- a constant, or `float64` of an integer
  div : F → F → F
  mul : F → F → F
  sub : F → F → F
  abs : F → F
  ceil : F → F
  toInt : F → Int  -- `int(x)`
  le : F → F → Bool
  lt : F → F → Bool
  verb : F → String  -- `%v`
  fixed : Nat → F → String  -- `%.nf`
  duration : Int → String  -- `%v` of a `time.Duration`

/-- Exact arithmetic.  `%v` prints a fraction, and a duration in nanoseconds. -/
instance : Float64 Rat where
  ofRat := id
  div := (· / ·)
  mul := (· * ·)
  sub := (· - ·)
  abs x := |x|
  ceil x := (⌈x⌉ : Int)
  toInt x := if x < 0 then ⌈x⌉ else ⌊x⌋
  le x y := decide (x ≤ y)
  lt x y := decide (x < y)
  verb := toString
  fixed digits x :=
    let scaled := ⌊|x| * 10 ^ digits + 1 / 2⌋.toNat
    let fraction := toString (scaled % 10 ^ digits)
    let padding := String.ofList (List.replicate (digits - fraction.length) '0')
    (if x < 0 then "-" else "") ++ toString (scaled / 10 ^ digits) ++
      if digits = 0 then "" else "." ++ padding ++ fraction
  duration nanoseconds := toString nanoseconds ++ "ns"

open Float64

variable {F : Type} [Float64 F]

/-! ## The policy -/

structure ScalePolicy (F : Type) where
  targetQueueDepth : F
  minReplicas : Int
  maxReplicas : Int
  tolerance : F
  scaleDownStabilization : Int
  kvHighWater : F
deriving DecidableEq

def defaultScalePolicy : ScalePolicy F where
  targetQueueDepth := ofRat 4
  minReplicas := 1
  maxReplicas := 8
  tolerance := ofRat (1 / 10)
  scaleDownStabilization := 5 * 60 * 1000000000
  kvHighWater := ofRat (9 / 10)

def ScalePolicy.validate (p : ScalePolicy F) : Except String Unit :=
  if le p.targetQueueDepth (ofRat 0) then
    .error ("TargetQueueDepth must be > 0, got " ++ verb p.targetQueueDepth)
  else if p.minReplicas < 1 then
    .error ("MinReplicas must be >= 1, got " ++ toString p.minReplicas)
  else if p.maxReplicas < p.minReplicas then
    .error ("MaxReplicas (" ++ toString p.maxReplicas ++ ") < MinReplicas (" ++ toString p.minReplicas ++ ")")
  else if lt p.tolerance (ofRat 0) || le (ofRat 1) p.tolerance then
    .error ("Tolerance must be in [0,1), got " ++ verb p.tolerance)
  else if le p.kvHighWater (ofRat 0) || lt (ofRat 1) p.kvHighWater then
    .error ("KVHighWater must be in (0,1], got " ++ verb p.kvHighWater)
  else .ok ()

/-! ## Observations and decisions -/

/-- One observation of the fleet. -/
structure ClusterLoad (F : Type) where
  registered : Int
  readyReplicas : Int
  totalWaiting : Int
  maxKVUtilization : F
deriving DecidableEq

structure Decision where
  desired : Int
  current : Int
  reason : String
  held : Bool := false
deriving DecidableEq, Repr

structure Sample where
  time : Int
  desired : Int
deriving DecidableEq, Repr

structure Autoscaler (F : Type) where
  policy : ScalePolicy F
  history : List Sample := []
deriving DecidableEq

def clamp (v lo hi : Int) : Int := if v < lo then lo else if v > hi then hi else v

namespace Autoscaler

/-- `NewAutoscaler` -/
def new (policy : ScalePolicy F) : Except String (Autoscaler F) :=
  match policy.validate with
  | .error message => .error message
  | .ok () => .ok { policy }

/-- The raw count of an observation with ready replicas, and the reason for it. -/
def intent (p : ScalePolicy F) (load : ClusterLoad F) : Int × String :=
  let current := load.readyReplicas
  let observed := div (ofRat load.totalWaiting : F) (ofRat current)
  let ratio := div observed p.targetQueueDepth
  let (raw, reason) :=
    if lt p.tolerance (abs (sub ratio (ofRat 1))) then
      (toInt (ceil (mul (ofRat current) ratio)),
        "queue " ++ fixed 2 observed ++ "/replica vs target " ++ fixed 2 p.targetQueueDepth ++
          " (ratio " ++ fixed 2 ratio ++ ")")
    else
      (current, "queue " ++ fixed 2 observed ++ "/replica within " ++ fixed 0 (mul p.tolerance (ofRat 100)) ++
        "% of target " ++ fixed 2 p.targetQueueDepth)
  let (raw, reason) :=
    if le p.kvHighWater load.maxKVUtilization && decide (raw ≤ current) then
      (current + 1, "KV at " ++ fixed 0 (mul load.maxKVUtilization (ofRat 100)) ++ "% (high water " ++
        fixed 0 (mul p.kvHighWater (ofRat 100)) ++ "%); adding headroom before preemption starts")
    else (raw, reason)
  (clamp raw p.minReplicas p.maxReplicas, reason)

/-- `trim`: the loop stops at the first sample that is not before the cutoff. -/
def trim (window now : Int) (history : List Sample) : List Sample :=
  history.dropWhile fun sample => decide (sample.time < now - window)

/-- The highest count of the window, and at least `raw`. -/
def stabilize (raw : Int) (history : List Sample) : Int :=
  history.foldl (fun stabilized sample => if sample.desired > stabilized then sample.desired else stabilized) raw

/-- `Decide`, called at `now`. -/
def decide (scaler : Autoscaler F) (load : ClusterLoad F) (now : Int) : Decision × Autoscaler F :=
  let p := scaler.policy
  let current := load.readyReplicas
  if current ≤ 0 then
    if load.registered > 0 then
      -- An outage, not a capacity shortage.
      ({ desired := load.registered
         current
         reason := toString load.registered ++ " registered, 0 ready: an outage, not a capacity shortage; holding" },
        scaler)
    else ({ desired := p.minReplicas, current, reason := "registry empty; requesting the floor" }, scaler)
  else
    let (raw, reason) := intent p load
    -- Recorded before stabilizing, so the window sees raw intent.
    let history := trim p.scaleDownStabilization now (scaler.history ++ [{ time := now, desired := raw }])
    let scaler := { scaler with history }
    if raw ≥ current then ({ desired := raw, current, reason }, scaler)
    else
      let stabilized := stabilize raw history
      if stabilized ≥ current then
        ({ desired := current
           current
           held := true
           reason := reason ++ "; scale-down to " ++ toString raw ++ " held, " ++
             duration F p.scaleDownStabilization ++ " window still contains a demand for " ++ toString stabilized },
          scaler)
      else
        ({ desired := stabilized
           current
           reason := reason ++ "; sustained for " ++ duration F p.scaleDownStabilization },
          scaler)

/-- An observation and the time it is decided on. -/
abbrev Tick (F : Type) := ClusterLoad F × Int

/-- The autoscaler after these calls of `Decide`. -/
def after (scaler : Autoscaler F) (ticks : List (Tick F)) : Autoscaler F :=
  ticks.foldl (fun scaler tick => (scaler.decide tick.1 tick.2).2) scaler

end Autoscaler

end Nanoserve.Router
