import Mathlib.Logic.Relation

/-! # Runs of a fallible transition function

A component is driven by a list of actions, each of which may raise.
-/

namespace Nanoserve.Lib

open List

variable {σ α ε : Type}

/-- The computation succeeds and its value has the property. -/
def Yields (result : Except ε α) (Holds : α → Prop) : Prop := ∃ value, result = .ok value ∧ Holds value

theorem yields_ok {value : α} {Holds : α → Prop} : Yields (.ok value : Except ε α) Holds ↔ Holds value := by
  simp [Yields]

theorem Yields.mono {result : Except ε α} {Holds Follows : α → Prop} (holds : Yields result Holds)
    (follows : ∀ value, Holds value → Follows value) : Yields result Follows := by
  obtain ⟨value, same, held⟩ := holds
  exact ⟨value, same, follows value held⟩

instance decidableYields {Holds : α → Prop} [DecidablePred Holds] :
    (result : Except ε α) → Decidable (Yields result Holds)
  | .ok _ => decidable_of_iff _ yields_ok.symm
  | .error _ => .isFalse fun ⟨_, same, _⟩ => nomatch same

def run (step : σ → α → Except ε σ) : σ → List α → Except ε σ
  | state, [] => .ok state
  | state, action :: actions =>
    match step state action with
    | .ok next => run step next actions
    | .error raised => .error raised

variable {step : σ → α → Except ε σ}
variable {state next : σ} {action : α} {actions : List α} {Cond : σ → α → Prop}

@[simp] theorem run_nil (state : σ) : run step state [] = .ok state := rfl

theorem run_cons_ok (actions : List α) (went : step state action = .ok next) :
    run step state (action :: actions) = run step next actions := by
  simp [run, went]

theorem run_cons_inv {last : σ} (ran : run step state (action :: actions) = .ok last) :
    ∃ next, step state action = .ok next ∧ run step next actions = .ok last := by
  simp only [run] at ran
  split at ran
  case h_1 next went => exact ⟨next, went, ran⟩
  case h_2 => cases ran

theorem run_append_ok {middle : σ} {first : List α} (second : List α) (ran : run step state first = .ok middle) :
    run step state (first ++ second) = run step middle second := by
  induction first generalizing state with
  | nil =>
    simp only [run_nil, Except.ok.injEq] at ran
    subst ran
    rfl
  | cons _ _ ih =>
    obtain ⟨_, went, ranRest⟩ := run_cons_inv ran
    rw [cons_append, run_cons_ok _ went]
    exact ih ranRest

/-! ## Conditions along a run -/

/-- `Cond` holds of the state before every action of the run. -/
def Along (step : σ → α → Except ε σ) (Cond : σ → α → Prop) : σ → List α → Prop
  | _, [] => True
  | state, action :: actions =>
    Cond state action ∧
      match step state action with
      | .ok next => Along step Cond next actions
      | .error _ => True

theorem along_cons (went : step state action = .ok next) :
    Along step Cond state (action :: actions) ↔ Cond state action ∧ Along step Cond next actions := by
  simp only [Along, went]

theorem Along.tail (along : Along step Cond state (action :: actions)) (went : step state action = .ok next) :
    Along step Cond next actions :=
  ((along_cons went).mp along).2

theorem Along.and {First Second : σ → α → Prop} (first : Along step First state actions)
    (second : Along step Second state actions) :
    Along step (fun state action => First state action ∧ Second state action) state actions := by
  induction actions generalizing state with
  | nil => trivial
  | cons action _ ih =>
    refine ⟨⟨first.1, second.1⟩, ?_⟩
    have left := first.2
    have right := second.2
    cases went : step state action with
    | ok =>
      simp only [went] at left right
      exact ih left right
    | error => trivial

instance decidableAlong {Cond : σ → α → Prop} [∀ state action, Decidable (Cond state action)] (state : σ) :
    (actions : List α) → Decidable (Along step Cond state actions)
  | [] => .isTrue trivial
  | action :: actions =>
    have : Decidable (match step state action with
        | .ok next => Along step Cond next actions
        | .error _ => True) :=
      match step state action with
      | .ok next => decidableAlong next actions
      | .error _ => .isTrue trivial
    inferInstanceAs (Decidable (_ ∧ _))

/-- `Cond` holds of the state before some action of the run. -/
def Sometime (step : σ → α → Except ε σ) (Cond : σ → α → Prop) : σ → List α → Prop
  | _, [] => False
  | state, action :: actions =>
    Cond state action ∨
      match step state action with
      | .ok next => Sometime step Cond next actions
      | .error _ => False

theorem sometime_cons (went : step state action = .ok next) :
    Sometime step Cond state (action :: actions) ↔ Cond state action ∨ Sometime step Cond next actions := by
  simp only [Sometime, went]

theorem sometime_append_singleton {last : σ} (ran : run step state actions = .ok last) :
    Sometime step Cond state (actions ++ [action]) ↔ Sometime step Cond state actions ∨ Cond last action := by
  induction actions generalizing state with
  | nil =>
    simp only [run_nil, Except.ok.injEq] at ran
    subst ran
    simp only [nil_append, Sometime]
    cases step state action <;> simp
  | cons _ _ ih =>
    obtain ⟨_, went, ranRest⟩ := run_cons_inv ran
    rw [cons_append, sometime_cons went, sometime_cons went, ih ranRest, or_assoc]

instance decidableSometime {Cond : σ → α → Prop} [∀ state action, Decidable (Cond state action)] (state : σ) :
    (actions : List α) → Decidable (Sometime step Cond state actions)
  | [] => .isFalse id
  | action :: actions =>
    have : Decidable (match step state action with
        | .ok next => Sometime step Cond next actions
        | .error _ => False) :=
      match step state action with
      | .ok next => decidableSometime next actions
      | .error _ => .isFalse id
    inferInstanceAs (Decidable (_ ∨ _))

theorem run_total_history {Inv : List α → σ → Prop} {Cond : σ → α → Prop} {start : σ}
    (prog : ∀ past state action, run step start past = .ok state → Inv past state → Cond state action →
      ∃ next, step state action = .ok next ∧ Inv (past ++ [action]) next)
    {actions : List α} (initially : Inv [] start) (along : Along step Cond start actions) :
    ∃ last, run step start actions = .ok last ∧ Inv actions last := by
  have from_past : ∀ (actions past : List α) (state : σ), run step start past = .ok state → Inv past state →
      Along step Cond state actions → ∃ last, run step state actions = .ok last ∧ Inv (past ++ actions) last := by
    intro actions
    induction actions with
    | nil => exact fun past state _ held _ => ⟨state, rfl, by rw [append_nil]; exact held⟩
    | cons action _ ih =>
      intro past state ran held along
      obtain ⟨next, went, heldNext⟩ := prog past state action ran held along.1
      have ranNext : run step start (past ++ [action]) = .ok next := by
        rw [run_append_ok _ ran, run_cons_ok _ went, run_nil]
      obtain ⟨last, ranLast, heldLast⟩ := ih (past ++ [action]) next ranNext heldNext (along.tail went)
      rw [append_assoc] at heldLast
      exact ⟨last, by rw [run_cons_ok _ went]; exact ranLast, heldLast⟩
  exact from_past actions [] start rfl initially along

theorem run_total_along {Inv : σ → Prop} {Cond : σ → α → Prop}
    (prog : ∀ state action, Inv state → Cond state action → ∃ next, step state action = .ok next ∧ Inv next)
    {actions : List α} {state : σ} (initially : Inv state) (along : Along step Cond state actions) :
    ∃ last, run step state actions = .ok last ∧ Inv last :=
  @run_total_history _ _ _ _ (fun _ => Inv) Cond state (fun _ state action _ held met => prog state action held met)
    actions initially along

theorem run_preserves {Inv : σ → Prop} {Cond : σ → α → Prop}
    (preserved : ∀ state action next, Inv state → Cond state action → step state action = .ok next → Inv next)
    {actions : List α} {state last : σ} (initially : Inv state) (along : Along step Cond state actions)
    (ran : run step state actions = .ok last) : Inv last := by
  induction actions generalizing state with
  | nil =>
    simp only [run_nil, Except.ok.injEq] at ran
    exact ran ▸ initially
  | cons _ _ ih =>
    obtain ⟨next, went, ranRest⟩ := run_cons_inv ran
    exact ih (preserved _ _ _ initially along.1 went) (along.tail went) ranRest

theorem run_outcome {Inv : σ → Prop} {Raised : ε → Prop} {Cond : σ → α → Prop}
    (preserved : ∀ state action next, Inv state → Cond state action → step state action = .ok next → Inv next)
    (raises : ∀ state action raised, Inv state → Cond state action → step state action = .error raised → Raised raised)
    {actions : List α} {state : σ} (initially : Inv state) (along : Along step Cond state actions) :
    match run step state actions with
    | .ok last => Inv last
    | .error raised => Raised raised := by
  induction actions generalizing state with
  | nil => exact initially
  | cons action _ ih =>
    simp only [run]
    cases went : step state action with
    | ok => exact ih (preserved _ _ _ initially along.1 went) (along.tail went)
    | error => exact raises _ _ _ initially along.1 went

theorem along_trivial (always : ∀ state action, Cond state action) (actions : List α) (state : σ) :
    Along step Cond state actions := by
  induction actions generalizing state with
  | nil => trivial
  | cons action _ ih =>
    refine ⟨always state action, ?_⟩
    cases step state action with
    | ok next => exact ih next
    | error => trivial

theorem along_of_forall {Cond : α → Prop} (all : ∀ action ∈ actions, Cond action) (state : σ) :
    Along step (fun _ action => Cond action) state actions := by
  induction actions generalizing state with
  | nil => trivial
  | cons action _ ih =>
    obtain ⟨first, rest⟩ := forall_mem_cons.mp all
    refine ⟨first, ?_⟩
    cases step state action with
    | ok next => exact ih rest next
    | error => trivial

/-- `Holds` of every state the run goes through. -/
def Throughout (step : σ → α → Except ε σ) (Holds : σ → Prop) (state : σ) (actions : List α) : Prop :=
  ∀ past reached, past <+: actions → run step state past = .ok reached → Holds reached

theorem throughout_cons {Holds : σ → Prop} (went : step state action = .ok next) :
    Throughout step Holds state (action :: actions) ↔ Holds state ∧ Throughout step Holds next actions := by
  constructor
  · intro throughout
    refine ⟨throughout [] state List.nil_prefix rfl, ?_⟩
    intro past reached begins ran
    exact throughout (action :: past) reached (cons_prefix_cons.mpr ⟨rfl, begins⟩)
      (by rw [run_cons_ok _ went, ran])
  · rintro ⟨now, later⟩ past reached begins ran
    cases past with
    | nil =>
      cases ran
      exact now
    | cons _ past =>
      obtain ⟨rfl, beginsToo⟩ := cons_prefix_cons.mp begins
      rw [run_cons_ok _ went] at ran
      exact later past reached beginsToo ran

theorem along_iff_throughout_given {Base Holds : σ → Prop} {Assumed Cond : σ → α → Prop}
    (kept : ∀ state action next, Base state → Assumed state action → step state action = .ok next → Base next)
    (exact : ∀ state action next, Base state → Assumed state action → Holds state → step state action = .ok next →
      (Holds next ↔ Cond state action))
    (raised : ∀ state action error, Base state → step state action = .error error → Cond state action)
    {actions : List α} {state : σ} (base : Base state) (initially : Holds state)
    (given : Along step Assumed state actions) :
    Throughout step Holds state actions ↔ Along step Cond state actions := by
  induction actions generalizing state with
  | nil =>
    refine ⟨fun _ => trivial, ?_⟩
    intro _ past reached begins ran
    obtain rfl := prefix_nil.mp begins
    cases ran
    exact initially
  | cons action _ ih =>
    cases went : step state action with
    | error =>
      refine ⟨fun _ => ⟨raised _ _ _ base went, by simp only [went]⟩, ?_⟩
      intro _ past reached begins ran
      cases past with
      | nil =>
        cases ran
        exact initially
      | cons =>
        obtain ⟨rfl, -⟩ := cons_prefix_cons.mp begins
        simp [run, went] at ran
    | ok next =>
      have both := exact state action next base given.1 initially went
      have keptNext := kept _ _ _ base given.1 went
      have givenNext := given.tail went
      rw [throughout_cons went, along_cons went]
      constructor
      · rintro ⟨-, later⟩
        have held : Holds next := later [] next nil_prefix rfl
        exact ⟨both.mp held, (ih keptNext held givenNext).mp later⟩
      · rintro ⟨met, along⟩
        have held : Holds next := both.mpr met
        exact ⟨initially, (ih keptNext held givenNext).mpr along⟩

theorem along_iff_throughout {Base Holds : σ → Prop} {Cond : σ → α → Prop}
    (kept : ∀ state action next, Base state → step state action = .ok next → Base next)
    (exact : ∀ state action next, Base state → Holds state → step state action = .ok next →
      (Holds next ↔ Cond state action))
    (raised : ∀ state action error, Base state → step state action = .error error → Cond state action)
    {actions : List α} {state : σ} (base : Base state) (initially : Holds state) :
    Throughout step Holds state actions ↔ Along step Cond state actions :=
  @along_iff_throughout_given _ _ _ _ Base Holds (fun _ _ => True) Cond
    (fun state action next held _ => kept state action next held)
    (fun state action next held _ => exact state action next held) raised _ _ base initially
    (along_trivial (fun _ _ => trivial) actions state)

theorem along_congr {Base : σ → Prop} {Assumed First Second : σ → α → Prop}
    (kept : ∀ state action next, Base state → Assumed state action → step state action = .ok next → Base next)
    (same : ∀ state action, Base state → (First state action ↔ Second state action))
    {actions : List α} {state : σ} (base : Base state) (given : Along step Assumed state actions) :
    Along step First state actions ↔ Along step Second state actions := by
  induction actions generalizing state with
  | nil => exact Iff.rfl
  | cons action _ ih =>
    refine and_congr (same state action base) ?_
    cases went : step state action with
    | error => exact Iff.rfl
    | ok => exact ih (kept _ _ _ base given.1 went) (given.tail went)

theorem run_total {Inv : σ → Prop}
    (prog : ∀ state action, Inv state → ∃ next, step state action = .ok next ∧ Inv next)
    (actions : List α) {state : σ} (initially : Inv state) :
    ∃ last, run step state actions = .ok last ∧ Inv last :=
  @run_total_along σ α ε step Inv (fun _ _ => True) (fun state action held _ => prog state action held) actions state initially
    (along_trivial (fun _ _ => trivial) actions state)

end Nanoserve.Lib
