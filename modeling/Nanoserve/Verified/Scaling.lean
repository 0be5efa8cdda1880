import Nanoserve.Router.Autoscaler

/-! # What the autoscaler decides

Results about every run of `Decide` on a new autoscaler.
-/

namespace Nanoserve.Verified

open Router Autoscaler List

variable {F : Type} [Float64 F] {policy : ScalePolicy F} {scaler : Autoscaler F}
variable {load : ClusterLoad F} {now : Int} {first : ClusterLoad Rat}

theorem validate_ok (accepted : policy.validate = .ok ()) :
    1 ≤ policy.minReplicas ∧ policy.minReplicas ≤ policy.maxReplicas := by
  unfold ScalePolicy.validate at accepted
  split at accepted
  · cases accepted
  · split at accepted
    · cases accepted
    · split at accepted
      · cases accepted
      · omega

theorem new_ok (accepted : Autoscaler.new policy = .ok scaler) :
    scaler = { policy } ∧ policy.minReplicas ≤ policy.maxReplicas := by
  unfold Autoscaler.new at accepted
  cases checked : policy.validate with
  | error =>
    rw [checked] at accepted
    cases accepted
  | ok =>
    rw [checked] at accepted
    cases accepted
    exact ⟨rfl, (validate_ok checked).2⟩

/-- What an observation with ready replicas asks for. -/
abbrev rawDesired (policy : ScalePolicy F) (load : ClusterLoad F) : Int := (intent policy load).1

theorem rawDesired_bounds (ne : policy.minReplicas ≤ policy.maxReplicas) (load : ClusterLoad F) :
    policy.minReplicas ≤ rawDesired policy load ∧ rawDesired policy load ≤ policy.maxReplicas := by
  simp only [rawDesired, intent, clamp]
  split <;> split <;> omega

theorem stabilize_le {raw bound : Int} {history : List Sample} :
    stabilize raw history ≤ bound ↔ raw ≤ bound ∧ ∀ sample ∈ history, sample.desired ≤ bound := by
  induction history generalizing raw with
  | nil => simp [stabilize]
  | cons sample history ih =>
    have step : stabilize raw (sample :: history) =
        stabilize (if sample.desired > raw then sample.desired else raw) history := rfl
    rw [step, ih, forall_mem_cons]
    split <;> constructor <;> rintro ⟨_, _⟩ <;> grind

def sampleOf (policy : ScalePolicy F) (tick : Tick F) : Sample :=
  { time := tick.2, desired := rawDesired policy tick.1 }

def window (scaler : Autoscaler F) (load : ClusterLoad F) (now : Int) : List Sample :=
  trim scaler.policy.scaleDownStabilization now (scaler.history ++ [sampleOf scaler.policy (load, now)])

theorem decide_unready (now : Int) (unready : load.readyReplicas ≤ 0) :
    (scaler.decide load now).1.desired = (if load.registered > 0 then load.registered else scaler.policy.minReplicas) ∧
      (scaler.decide load now).2 = scaler := by
  unfold Autoscaler.decide
  simp only [if_pos unready]
  split <;> exact ⟨rfl, rfl⟩

theorem decide_ready {load : ClusterLoad F} (now : Int) (ready : 0 < load.readyReplicas) :
    (scaler.decide load now).1.current = load.readyReplicas ∧
      (scaler.decide load now).1.desired =
        (if rawDesired scaler.policy load ≥ load.readyReplicas then rawDesired scaler.policy load
         else min load.readyReplicas (stabilize (rawDesired scaler.policy load) (window scaler load now))) ∧
      (scaler.decide load now).2 = { scaler with history := window scaler load now } := by
  have recorded : trim scaler.policy.scaleDownStabilization now
      (scaler.history ++ [{ time := now, desired := (intent scaler.policy load).1 }]) = window scaler load now := rfl
  unfold Autoscaler.decide
  simp only [if_neg (not_le.mpr ready), recorded]
  by_cases up : rawDesired scaler.policy load ≥ load.readyReplicas
  · rw [if_pos up, if_pos up]
    exact ⟨rfl, rfl, rfl⟩
  · rw [if_neg up, if_neg up]
    by_cases kept : stabilize (rawDesired scaler.policy load) (window scaler load now) ≥ load.readyReplicas
    · rw [if_pos kept, min_eq_left kept]
      exact ⟨rfl, rfl, rfl⟩
    · rw [if_neg kept, min_eq_right (by omega)]
      exact ⟨rfl, rfl, rfl⟩

/-! ## Within the policy -/

structure Clamped (policy : ScalePolicy F) (scaler : Autoscaler F) : Prop where
  samePolicy : scaler.policy = policy
  bounds : ∀ sample ∈ scaler.history, policy.minReplicas ≤ sample.desired ∧ sample.desired ≤ policy.maxReplicas

theorem mem_window {sample : Sample} (mem : sample ∈ window scaler load now) :
    sample ∈ scaler.history ∨ sample = sampleOf scaler.policy (load, now) := by
  have inBoth := (dropWhile_sublist _).mem mem
  rw [mem_append, mem_singleton] at inBoth
  exact inBoth

namespace Clamped

section

variable (clamped : Clamped policy scaler)
include clamped

section

variable (ne : policy.minReplicas ≤ policy.maxReplicas)
include ne

theorem window
    (load : ClusterLoad F) (now : Int) :
    ∀ sample ∈ window scaler load now, policy.minReplicas ≤ sample.desired ∧ sample.desired ≤ policy.maxReplicas := by
  intro sample mem
  cases mem_window mem with
  | inl old => exact clamped.bounds sample old
  | inr new =>
    rw [new, clamped.samePolicy]
    exact rawDesired_bounds ne load

theorem decide
    (load : ClusterLoad F) (now : Int) : Clamped policy (scaler.decide load now).2 := by
  by_cases ready : 0 < load.readyReplicas
  · rw [(decide_ready now ready).2.2]
    exact ⟨clamped.samePolicy, clamped.window ne load now⟩
  · rw [(decide_unready now (by omega)).2]
    exact clamped

theorem after
    (ticks : List (Tick F)) : Clamped policy (scaler.after ticks) := by
  induction ticks generalizing scaler with
  | nil => exact clamped
  | cons tick _ ih => exact ih (clamped.decide ne tick.1 tick.2)

theorem desired (now : Int)
    (ready : 0 < load.readyReplicas) :
    policy.minReplicas ≤ (scaler.decide load now).1.desired ∧
      (scaler.decide load now).1.desired ≤ policy.maxReplicas := by
  obtain ⟨-, desiredEq, -⟩ := decide_ready now ready
  have raw := rawDesired_bounds ne load
  have highest : stabilize (rawDesired policy load) (Verified.window scaler load now) ≤ policy.maxReplicas :=
    stabilize_le.mpr ⟨raw.2, fun sample mem => (clamped.window ne load now sample mem).2⟩
  have atLeast : rawDesired policy load ≤ stabilize (rawDesired policy load) (Verified.window scaler load now) :=
    (stabilize_le.mp (Int.le_refl _)).1
  rw [desiredEq, clamped.samePolicy]
  split
  · exact raw
  · omega

end

end

end Clamped

/-- For every accepted policy, every run of `Decide` before it and every load, the count `Decide`
returns is within the policy exactly if the load is not an outage with a registered count outside of
it. -/
theorem desired_within_policy_iff (accepted : Autoscaler.new policy = .ok scaler) (ticks : List (Tick F))
    (load : ClusterLoad F) (now : Int) :
    (policy.minReplicas ≤ ((scaler.after ticks).decide load now).1.desired ∧
        ((scaler.after ticks).decide load now).1.desired ≤ policy.maxReplicas) ↔
      (load.readyReplicas ≤ 0 → 0 < load.registered →
        policy.minReplicas ≤ load.registered ∧ load.registered ≤ policy.maxReplicas) := by
  obtain ⟨rfl, nonempty⟩ := new_ok accepted
  have fresh : Clamped policy ({ policy } : Autoscaler F) := ⟨rfl, fun sample member => by cases member⟩
  have clamped := fresh.after nonempty ticks
  by_cases ready : 0 < load.readyReplicas
  · have within := clamped.desired nonempty now ready
    exact ⟨fun _ unready => absurd ready (by omega), fun _ => within⟩
  · rw [(decide_unready now (by omega)).1, clamped.samePolicy]
    by_cases outage : load.registered > 0
    · rw [if_pos outage]
      exact ⟨fun within _ _ => within, fun within => within (by omega) outage⟩
    · rw [if_neg outage]
      exact ⟨fun _ _ registered => absurd registered outage, fun _ => ⟨Int.le_refl _, nonempty⟩⟩

/-- The default policy, in exact arithmetic. -/
def defaultAutoscaler : Autoscaler Rat := { policy := defaultScalePolicy }

/-- Four replicas without a waiting request, and with 16 of them, as many as the default target asks
for. -/
def quiet : ClusterLoad Rat := ⟨4, 4, 0, 0⟩

def busy : ClusterLoad Rat := ⟨4, 4, 16, 0⟩

theorem desired_within_policy_iff_default :
    Autoscaler.new (defaultScalePolicy : ScalePolicy Rat) = .ok defaultAutoscaler ∧
      ((defaultScalePolicy : ScalePolicy Rat).minReplicas ≤
            ((defaultAutoscaler.after [(busy, 0)]).decide quiet 1).1.desired ∧
          ((defaultAutoscaler.after [(busy, 0)]).decide quiet 1).1.desired ≤
            (defaultScalePolicy : ScalePolicy Rat).maxReplicas ↔
        (quiet.readyReplicas ≤ 0 → 0 < quiet.registered →
          (defaultScalePolicy : ScalePolicy Rat).minReplicas ≤ quiet.registered ∧
            quiet.registered ≤ (defaultScalePolicy : ScalePolicy Rat).maxReplicas)) :=
  ⟨by decide +kernel, desired_within_policy_iff (by decide +kernel) [(busy, 0)] quiet 1⟩

/-- Nine registered and none ready, under a ceiling of eight. -/
theorem outage_exceeds_ceiling :
    Autoscaler.new (defaultScalePolicy : ScalePolicy Rat) = .ok defaultAutoscaler ∧
      (defaultScalePolicy : ScalePolicy Rat).maxReplicas = 8 ∧
      ((defaultAutoscaler.after []).decide ⟨9, 0, 0, 0⟩ 0).1.desired = 9 := by
  decide +kernel

/-! ## Evidence for a scale-down -/

def samples (policy : ScalePolicy F) (ticks : List (Tick F)) : List Sample :=
  (ticks.filter fun tick => 0 < tick.1.readyReplicas).map (sampleOf policy)

theorem samples_append (policy : ScalePolicy F) (first second : List (Tick F)) :
    samples policy (first ++ second) = samples policy first ++ samples policy second := by
  simp [samples]

/-- The calls are made at these times in this order. -/
def Clocked (ticks : List (Tick F)) : Prop := ticks.Pairwise fun earlier later => earlier.2 ≤ later.2

theorem pairwise_samples {ticks : List (Tick F)} (clocked : Clocked ticks) :
    (samples policy ticks).Pairwise fun earlier later => earlier.time ≤ later.time := by
  rw [samples, pairwise_map]
  exact clocked.filter _

theorem trim_eq_filter {cutoff : Int} {history : List Sample}
    (sorted : history.Pairwise fun earlier later => earlier.time ≤ later.time) :
    trim cutoff now history = history.filter fun sample => now - cutoff ≤ sample.time := by
  induction history with
  | nil => rfl
  | cons sample history ih =>
    obtain ⟨first, sorted⟩ := pairwise_cons.mp sorted
    by_cases old : sample.time < now - cutoff
    · rw [filter_cons_of_neg (by rw [decide_eq_true_iff]; omega), ← ih sorted]
      simp only [trim, dropWhile_cons, decide_eq_true old, if_true]
    · have all : ∀ other ∈ sample :: history, decide (now - cutoff ≤ other.time) = true := by
        intro other mem
        rw [decide_eq_true_iff]
        cases mem with
        | head => omega
        | tail _ mem =>
          have later := first other mem
          omega
      rw [filter_eq_self.mpr all]
      simp only [trim, dropWhile_cons, decide_eq_false old, if_false, Bool.false_eq_true]

structure Remembers (policy : ScalePolicy F) (ticks : List (Tick F)) (scaler : Autoscaler F) : Prop where
  samePolicy : scaler.policy = policy
  part : scaler.history.Sublist (samples policy ticks)
  whole : ∀ now, (∀ tick ∈ ticks, tick.2 ≤ now) →
    scaler.history.filter (fun sample => now - policy.scaleDownStabilization ≤ sample.time) =
      (samples policy ticks).filter fun sample => now - policy.scaleDownStabilization ≤ sample.time

namespace Remembers

variable {past : List (Tick F)}

theorem window_eq (remembers : Remembers policy past scaler) (clocked : Clocked (past ++ [(load, now)]))
    (ready : 0 < load.readyReplicas) :
    window scaler load now = (samples policy (past ++ [(load, now)])).filter fun sample =>
      now - policy.scaleDownStabilization ≤ sample.time := by
  have single : samples policy [(load, now)] = [sampleOf policy (load, now)] := by simp [samples, ready]
  have part : (scaler.history ++ [sampleOf policy (load, now)]).Sublist (samples policy (past ++ [(load, now)])) := by
    rw [samples_append, single]
    exact remembers.part.append_right _
  have last : ∀ tick ∈ past, tick.2 ≤ now := fun tick mem =>
    (pairwise_append.mp clocked).2.2 tick mem _ (mem_singleton_self _)
  rw [window, remembers.samePolicy, trim_eq_filter ((pairwise_samples clocked).sublist part), filter_append,
    remembers.whole now last, samples_append, filter_append, single]

theorem initially (policy : ScalePolicy F) : Remembers policy [] { policy } :=
  ⟨rfl, Sublist.refl _, fun _ _ => rfl⟩

theorem decide (remembers : Remembers policy past scaler) (clocked : Clocked (past ++ [(load, now)])) :
    Remembers policy (past ++ [(load, now)]) (scaler.decide load now).2 := by
  by_cases ready : 0 < load.readyReplicas
  · have recorded := remembers.window_eq clocked ready
    rw [(decide_ready now ready).2.2]
    refine ⟨remembers.samePolicy, ?_, ?_⟩
    · simp only [recorded]
      exact filter_sublist
    · -- The window only moves on: what it has left behind by now it does not see again.
      intro later after
      have moved := after _ (mem_append_right past (mem_singleton_self (load, now)))
      simp only [recorded, filter_filter]
      apply filter_congr
      intro sample _
      rw [← Bool.decide_and, decide_eq_decide]
      omega
  · have none : samples policy [(load, now)] = [] := by simp [samples, ready]
    rw [(decide_unready now (by omega)).2]
    refine ⟨remembers.samePolicy, ?_, ?_⟩
    · rw [samples_append, none, append_nil]
      exact remembers.part
    · intro later after
      rw [samples_append, none, append_nil]
      exact remembers.whole later fun tick mem => after tick (mem_append_left _ mem)

theorem after {ticks : List (Tick F)} (remembers : Remembers policy past scaler) (clocked : Clocked (past ++ ticks)) :
    Remembers policy (past ++ ticks) (scaler.after ticks) := by
  induction ticks generalizing past scaler with
  | nil =>
    rw [append_nil]
    exact remembers
  | cons _ _ ih =>
    rw [← singleton_append, ← append_assoc] at clocked ⊢
    exact ih (remembers.decide (pairwise_append.mp clocked).1) clocked

end Remembers

section ScaleDown

variable {past : List (Tick F)}

theorem forall_window (remembers : Remembers policy past scaler) (clocked : Clocked (past ++ [(load, now)]))
    (ready : 0 < load.readyReplicas) (bound : Int) :
    (∀ sample ∈ window scaler load now, sample.desired ≤ bound) ↔
      ∀ tick ∈ past ++ [(load, now)], 0 < tick.1.readyReplicas → now - policy.scaleDownStabilization ≤ tick.2 →
        rawDesired policy tick.1 ≤ bound := by
  rw [remembers.window_eq clocked ready]
  constructor
  · intro all tick mem tickReady inWindow
    refine all (sampleOf policy tick) (mem_filter.mpr ⟨mem_map_of_mem ?_, by simpa [sampleOf] using inWindow⟩)
    exact mem_filter.mpr ⟨mem, by simpa using tickReady⟩
  · intro all sample mem
    obtain ⟨inSamples, inWindow⟩ := mem_filter.mp mem
    obtain ⟨tick, tickIn, rfl⟩ := mem_map.mp inSamples
    obtain ⟨mem, tickReady⟩ := mem_filter.mp tickIn
    exact all tick mem (by simpa using tickReady) (by simpa [sampleOf] using inWindow)

theorem scale_down_spec (remembers : Remembers policy past scaler) (clocked : Clocked (past ++ [(load, now)]))
    (pos : 0 < policy.scaleDownStabilization) (ready : 0 < load.readyReplicas) :
    ((scaler.decide load now).1.desired < (scaler.decide load now).1.current ↔
        ∀ tick ∈ past ++ [(load, now)], 0 < tick.1.readyReplicas → now - policy.scaleDownStabilization ≤ tick.2 →
          rawDesired policy tick.1 ≤ load.readyReplicas - 1) ∧
      ((scaler.decide load now).1.desired < (scaler.decide load now).1.current →
        ∀ tick ∈ past ++ [(load, now)], 0 < tick.1.readyReplicas → now - policy.scaleDownStabilization ≤ tick.2 →
          rawDesired policy tick.1 ≤ (scaler.decide load now).1.desired) := by
  obtain ⟨currentEq, desiredEq, -⟩ := decide_ready now ready
  rw [remembers.samePolicy] at desiredEq
  have covered := stabilize_le.mp (Int.le_refl (stabilize (rawDesired policy load) (window scaler load now)))
  have lower : stabilize (rawDesired policy load) (window scaler load now) ≤ load.readyReplicas - 1 ↔ _ := stabilize_le
  rw [forall_window remembers clocked ready] at covered lower
  rw [currentEq, desiredEq]
  refine ⟨⟨?_, ?_⟩, ?_⟩
  · intro down
    refine (lower.mp ?_).2
    split at down <;> omega
  · intro all
    have raw := all (load, now) (mem_append_right past (mem_singleton_self _)) ready (by omega)
    have below := lower.mpr ⟨raw, all⟩
    rw [if_neg (by omega)]
    omega
  · intro down tick mem tickReady inWindow
    have least := covered.2 tick mem tickReady inWindow
    split at down
    · omega
    · rw [if_neg (by assumption), min_eq_right (by omega)]
      exact least

end ScaleDown

/-- Every scale-down of the run comes after a full window of watching. -/
def Sustained (counts : ClusterLoad F → Bool) (scaler : Autoscaler F) (ticks : List (Tick F)) : Prop :=
  ∀ past load now future, ticks = past ++ (load, now) :: future → 0 < load.readyReplicas →
    ((scaler.after past).decide load now).1.desired < ((scaler.after past).decide load now).1.current →
      (∃ tick ∈ past, counts tick.1 = true ∧ tick.2 ≤ now - scaler.policy.scaleDownStabilization) ∧
      ∀ tick ∈ past ++ [(load, now)], 0 < tick.1.readyReplicas →
        now - scaler.policy.scaleDownStabilization ≤ tick.2 →
          rawDesired scaler.policy tick.1 ≤ ((scaler.after past).decide load now).1.desired

/-- Until it has been watching for a full window, every observation with ready replicas finds a raw
count, its own or an earlier one, that asks for all of them. -/
def Primed (counts : ClusterLoad F → Bool) (scaler : Autoscaler F) (ticks : List (Tick F)) : Prop :=
  ∀ past load now future, ticks = past ++ (load, now) :: future → 0 < load.readyReplicas →
    (∀ tick ∈ past, counts tick.1 = true → now - scaler.policy.scaleDownStabilization < tick.2) →
      ∃ tick ∈ past ++ [(load, now)], 0 < tick.1.readyReplicas ∧
        load.readyReplicas ≤ rawDesired scaler.policy tick.1

theorem scale_down_sustained_iff (accepted : Autoscaler.new policy = .ok scaler)
    (positive : 0 < policy.scaleDownStabilization) {counts : ClusterLoad F → Bool}
    (watching : ∀ load, 0 < load.readyReplicas → counts load = true) {ticks : List (Tick F)}
    (clocked : Clocked ticks) : Sustained counts scaler ticks ↔ Primed counts scaler ticks := by
  obtain ⟨rfl, -⟩ := new_ok accepted
  have spec : ∀ past load now future, ticks = past ++ (load, now) :: future → 0 < load.readyReplicas → _ :=
    fun past load now future split ready =>
      have upTo : Clocked (past ++ [(load, now)]) := by
        rw [split, ← List.singleton_append, ← List.append_assoc] at clocked
        exact (List.pairwise_append.mp clocked).1
      scale_down_spec ((Remembers.initially policy).after (List.pairwise_append.mp upTo).1) upTo positive ready
  constructor
  · intro sustained past load now future split ready early
    by_contra unasked
    simp only [not_exists, not_and, not_le] at unasked
    have down := (spec past load now future split ready).1.mpr fun tick member tickReady _ => by
      have below := unasked tick member tickReady
      omega
    obtain ⟨⟨tick, member, counted, longAgo⟩, -⟩ := sustained past load now future split ready down
    have recent := early tick member counted
    omega
  · intro primed past load now future split ready down
    have covered := (spec past load now future split ready).2 down
    refine ⟨?_, covered⟩
    by_contra short
    simp only [not_exists, not_and, not_le] at short
    obtain ⟨tick, member, tickReady, asks⟩ := primed past load now future split ready short
    have asks : load.readyReplicas ≤ rawDesired policy tick.1 := asks
    -- Everything so far is younger than the window.
    have inWindow : now - policy.scaleDownStabilization ≤ tick.2 := by
      cases List.mem_append.mp member with
      | inl before => exact Int.le_of_lt (short tick before (watching tick.1 tickReady))
      | inr this =>
        rw [List.mem_singleton.mp this]
        omega
    have below := (spec past load now future split ready).1.mp down tick member tickReady inWindow
    omega

/-- Quiet for more than five minutes after a busy start. -/
theorem scale_down_sustained_iff_default :
    Autoscaler.new (defaultScalePolicy : ScalePolicy Rat) = .ok defaultAutoscaler ∧
      0 < (defaultScalePolicy : ScalePolicy Rat).scaleDownStabilization ∧
      Clocked [(busy, 0), (quiet, 300000000001)] ∧
      (Sustained (fun _ => true) defaultAutoscaler [(busy, 0), (quiet, 300000000001)] ↔
        Primed (fun _ => true) defaultAutoscaler [(busy, 0), (quiet, 300000000001)]) ∧
      ((defaultAutoscaler.after [(busy, 0)]).decide quiet 300000000001).1.desired = 1 :=
  ⟨by decide +kernel, by decide +kernel, by simp [Clocked],
    @scale_down_sustained_iff Rat _ defaultScalePolicy defaultAutoscaler (by decide +kernel) (by decide +kernel) _
      (fun _ _ => rfl) _ (by simp [Clocked]),
    by decide +kernel⟩

/-- The first observation of all scales a quiet fleet of four down to one. -/
theorem first_quiet_tick_scales_down :
    Autoscaler.new (defaultScalePolicy : ScalePolicy Rat) = .ok defaultAutoscaler ∧
      ((defaultAutoscaler.after []).decide quiet 0).1.desired = 1 ∧
      ((defaultAutoscaler.after []).decide quiet 0).1.current = 4 ∧
      ¬Sustained (fun _ => true) defaultAutoscaler [(quiet, 0)] := by
  refine ⟨by decide +kernel, by decide +kernel, by decide +kernel, ?_⟩
  intro sustained
  obtain ⟨⟨tick, member, -⟩, -⟩ := sustained [] quiet 0 [] rfl (by decide) (by decide +kernel)
  cases member

/-! ## More demand

In exact arithmetic more waiting requests and a fuller cache never make a decision
smaller: each stage of it, from the dead band to the window, is monotone.
-/

section Monotone

def queueRaw (policy : ScalePolicy Rat) (load : ClusterLoad Rat) : Int :=
  let ratio : Rat := (load.totalWaiting : Rat) / load.readyReplicas / policy.targetQueueDepth
  if policy.tolerance < |ratio - 1| then ⌈load.readyReplicas * ratio⌉ else load.readyReplicas

def headroom (policy : ScalePolicy Rat) (load : ClusterLoad Rat) : Int :=
  if policy.kvHighWater ≤ load.maxKVUtilization ∧ queueRaw policy load ≤ load.readyReplicas then load.readyReplicas + 1
  else queueRaw policy load

theorem rawDesired_eq (policy : ScalePolicy Rat) (load : ClusterLoad Rat) :
    rawDesired policy load = clamp (headroom policy load) policy.minReplicas policy.maxReplicas := by
  have truncated (count : Int) : (if (count : Rat) < 0 then ⌈(count : Rat)⌉ else ⌊(count : Rat)⌋) = count := by
    rw [Int.ceil_intCast, Int.floor_intCast, ite_self]
  simp only [rawDesired, intent, headroom, queueRaw, Float64.lt, Float64.le, Float64.div, Float64.mul, Float64.sub,
    Float64.abs, Float64.ceil, Float64.toInt, Float64.ofRat, id_eq, truncated, decide_eq_true_eq, Bool.and_eq_true]
  split
  · split <;> rfl
  · split <;> rfl

theorem validate_target {policy : ScalePolicy Rat} (accepted : policy.validate = .ok ()) :
    0 < policy.targetQueueDepth := by
  by_contra nonpositive
  have refusal : Float64.le policy.targetQueueDepth (Float64.ofRat 0) = true :=
    decide_eq_true (not_lt.mp nonpositive)
  rw [ScalePolicy.validate, if_pos refusal] at accepted
  cases accepted

theorem queueRaw_mono {policy : ScalePolicy Rat} (pos : 0 < policy.targetQueueDepth) {second : ClusterLoad Rat}
    (same : first.readyReplicas = second.readyReplicas) (ready : 0 < first.readyReplicas)
    (waiting : first.totalWaiting ≤ second.totalWaiting) : queueRaw policy first ≤ queueRaw policy second := by
  have replicas : (0 : Rat) < first.readyReplicas := by exact_mod_cast ready
  simp only [queueRaw, ← same]
  have ratios : (first.totalWaiting : Rat) / first.readyReplicas / policy.targetQueueDepth ≤
      (second.totalWaiting : Rat) / first.readyReplicas / policy.targetQueueDepth := by
    gcongr
  generalize (first.totalWaiting : Rat) / first.readyReplicas / policy.targetQueueDepth = lower at ratios ⊢
  generalize (second.totalWaiting : Rat) / first.readyReplicas / policy.targetQueueDepth = upper at ratios ⊢
  by_cases below : policy.tolerance < |lower - 1|
  · by_cases above : policy.tolerance < |upper - 1|
    · rw [if_pos below, if_pos above]
      exact Int.ceil_mono (mul_le_mul_of_nonneg_left ratios replicas.le)
    · -- Outside of the band and not above it.
      rw [if_pos below, if_neg above, Int.ceil_le]
      rw [not_lt, abs_le] at above
      have under : lower ≤ 1 := by
        by_contra beyond
        rw [abs_of_pos (by linarith)] at below
        linarith
      exact mul_le_of_le_one_right replicas.le under
  · by_cases above : policy.tolerance < |upper - 1|
    · rw [if_neg below, if_pos above, Int.le_ceil_iff]
      rw [not_lt, abs_le] at below
      have atLeast : 1 ≤ upper := by
        by_contra under
        rw [abs_of_neg (by linarith)] at above
        linarith
      have enough := le_mul_of_one_le_right replicas.le atLeast
      linarith
    · rw [if_neg below, if_neg above]

theorem headroom_mono {policy : ScalePolicy Rat} {second : ClusterLoad Rat}
    (same : first.readyReplicas = second.readyReplicas) (queue : queueRaw policy first ≤ queueRaw policy second)
    (cache : first.maxKVUtilization ≤ second.maxKVUtilization) : headroom policy first ≤ headroom policy second := by
  simp only [headroom, ← same]
  by_cases full : policy.kvHighWater ≤ first.maxKVUtilization
  · simp only [full, full.trans cache, true_and]
    split <;> split <;> omega
  · simp only [full, false_and, if_false]
    split <;> omega

theorem clamp_mono {lo hi first second : Int} (ne : lo ≤ hi) (le : first ≤ second) :
    clamp first lo hi ≤ clamp second lo hi := by
  simp only [clamp]
  split_ifs <;> omega

theorem mem_window_other {scaler : Autoscaler Rat} {sample : Sample} (mem : sample ∈ window scaler first now)
    (second : ClusterLoad Rat) :
    sample = sampleOf scaler.policy (first, now) ∨ sample ∈ window scaler second now := by
  simp only [window, trim, dropWhile_append] at mem ⊢
  split at mem
  · -- All that was there before has been dropped.
    exact .inl (mem_singleton.mp ((dropWhile_sublist _).mem mem))
  · next kept =>
    rw [if_neg kept]
    cases mem_append.mp mem with
    | inl old => exact .inr (mem_append_left _ old)
    | inr last => exact .inl (mem_singleton.mp last)

theorem stabilize_mono {scaler : Autoscaler Rat} {first second : ClusterLoad Rat} {now : Int}
    (raw : rawDesired scaler.policy first ≤ rawDesired scaler.policy second) :
    stabilize (rawDesired scaler.policy first) (window scaler first now) ≤
      stabilize (rawDesired scaler.policy second) (window scaler second now) := by
  obtain ⟨least, highest⟩ := (stabilize_le).mp (Int.le_refl _)
  refine stabilize_le.mpr ⟨raw.trans least, ?_⟩
  intro sample mem
  cases mem_window_other mem second with
  | inl last =>
    rw [last]
    exact raw.trans least
  | inr old => exact highest sample old

/-- Under every accepted policy, after every history and at every time, more demand on the same
ready replicas never makes the count smaller. -/
theorem decide_monotone (scaler : Autoscaler Rat) (valid : scaler.policy.validate = .ok ()) (now : Int)
    {first second : ClusterLoad Rat} (sameReady : first.readyReplicas = second.readyReplicas)
    (ready : 0 < first.readyReplicas) (waiting : first.totalWaiting ≤ second.totalWaiting)
    (cache : first.maxKVUtilization ≤ second.maxKVUtilization) :
    (scaler.decide first now).1.desired ≤ (scaler.decide second now).1.desired := by
  have raw : rawDesired scaler.policy first ≤ rawDesired scaler.policy second := by
    rw [rawDesired_eq, rawDesired_eq]
    exact clamp_mono (validate_ok valid).2
      (headroom_mono sameReady (queueRaw_mono (validate_target valid) sameReady ready waiting) cache)
  have stabilized := @stabilize_mono scaler first second now raw
  rw [(decide_ready now ready).2.1, (decide_ready now (sameReady ▸ ready)).2.1, ← sameReady]
  split
  · rw [if_pos (by omega)]
    exact raw
  · split
    · omega
    · exact min_le_min_left _ stabilized

/-- The quiet fleet against the busy one, in the window of a busy start. -/
theorem decide_monotone_busy :
    let scaler := defaultAutoscaler.after [(busy, 0)]
    (scaler.decide quiet 1).1.desired ≤ (scaler.decide { busy with maxKVUtilization := 95 / 100 } 1).1.desired ∧
      (scaler.decide { busy with maxKVUtilization := 95 / 100 } 1).1.desired = 5 :=
  ⟨decide_monotone (defaultAutoscaler.after [(busy, 0)]) (by decide +kernel) 1 (by decide) (by decide) (by decide)
    (by decide +kernel), by decide +kernel⟩

end Monotone

end Nanoserve.Verified
