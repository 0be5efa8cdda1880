import Mathlib.Data.List.Basic
import Mathlib.Logic.Function.Basic

/-! # Replaying a log

A log is a list of batches of updates, one batch for each revision.
-/

namespace Nanoserve.Lib

open List

variable {κ ν : Type} [DecidableEq κ]

inductive Update (κ ν : Type) where
  | put (key : κ) (value : ν)
  | delete (key : κ)
deriving DecidableEq, Repr

def Update.key : Update κ ν → κ
  | put key _ => key
  | delete key => key

def Update.value : Update κ ν → Option ν
  | put _ value => some value
  | delete _ => none

def Update.apply (state : κ → Option ν) (update : Update κ ν) : κ → Option ν :=
  Function.update state update.key update.value

def replay (updates : List (Update κ ν)) (state : κ → Option ν) : κ → Option ν := updates.foldl Update.apply state

theorem replay_cons (update : Update κ ν) (updates : List (Update κ ν)) (state : κ → Option ν) :
    replay (update :: updates) state = replay updates (update.apply state) := rfl

theorem replay_follows {σ α : Type} {view : σ → κ → Option ν} {step : σ → α → σ} {change : α → Option (Update κ ν)}
    (follows : ∀ store entry, view (step store entry) = (change entry).elim (view store) (Update.apply (view store)))
    (entries : List α) (store : σ) :
    view (entries.foldl step store) = replay (entries.filterMap change) (view store) := by
  induction entries generalizing store with
  | nil => rfl
  | cons entry _ ih =>
    rw [foldl_cons, ih, follows]
    cases changed : change entry with
    | none => rw [filterMap_cons_none changed, Option.elim_none]
    | some => rw [filterMap_cons_some changed, Option.elim_some, replay_cons]

theorem replay_append (first second : List (Update κ ν)) (state : κ → Option ν) :
    replay (first ++ second) state = replay second (replay first state) := foldl_append

theorem replay_untouched {updates : List (Update κ ν)} {key : κ} (untouched : ∀ update ∈ updates, update.key ≠ key)
    (state : κ → Option ν) : replay updates state key = state key := by
  induction updates generalizing state with
  | nil => rfl
  | cons _ _ ih =>
    obtain ⟨first, rest⟩ := forall_mem_cons.mp untouched
    exact (ih rest _).trans (Function.update_of_ne (Ne.symm first) _ _)

theorem replay_touched {updates : List (Update κ ν)} {key : κ} (touched : ∃ update ∈ updates, update.key = key)
    (first second : κ → Option ν) : replay updates first key = replay updates second key := by
  induction updates generalizing first second with
  | nil =>
    obtain ⟨update, mem, -⟩ := touched
    cases mem
  | cons update updates ih =>
    by_cases again : ∃ later ∈ updates, later.key = key
    · exact ih again _ _
    · have rest : ∀ later ∈ updates, later.key ≠ key := fun later mem same => again ⟨later, mem, same⟩
      have here : update.key = key := by
        obtain ⟨found, mem, same⟩ := touched
        cases mem_cons.mp mem with
        | inl isFirst => exact isFirst ▸ same
        | inr later => exact absurd same (rest found later)
      have firstEq := replay_untouched rest (Update.apply first update)
      have secondEq := replay_untouched rest (Update.apply second update)
      refine firstEq.trans (Eq.trans ?_ secondEq.symm)
      rw [Update.apply, Update.apply, here, Function.update_self, Function.update_self]

/-! ## Revisions -/

/-- The updates after revision `start` up to revision `stop`. -/
def between (log : List (List (Update κ ν))) (start stop : Nat) : List (Update κ ν) :=
  ((log.drop start).take (stop - start)).flatten

/-- What the log comes to at a revision. -/
def contents (log : List (List (Update κ ν))) (revision : Nat) : κ → Option ν :=
  replay (between log 0 revision) fun _ => none

omit [DecidableEq κ] in
theorem between_append {log : List (List (Update κ ν))} {start middle stop : Nat} (first : start ≤ middle)
    (second : middle ≤ stop) : between log start middle ++ between log middle stop = between log start stop := by
  obtain ⟨early, rfl⟩ := Nat.exists_eq_add_of_le first
  obtain ⟨late, rfl⟩ := Nat.exists_eq_add_of_le second
  have whole : start + early + late - start = early + late := by omega
  simp only [between, Nat.add_sub_cancel_left, whole, take_add, flatten_append, drop_drop]

omit [DecidableEq κ] in
theorem between_append_log {log : List (List (Update κ ν))} {stop : Nat} (within : stop ≤ log.length) (start : Nat)
    (more : List (List (Update κ ν))) : between (log ++ more) start stop = between log start stop := by
  by_cases later : start ≤ log.length
  · have short : stop - start ≤ (log.drop start).length := by
      rw [length_drop]
      omega
    rw [between, between, drop_append_of_le_length later, take_append_of_le_length short]
  · have nothing : stop - start = 0 := by omega
    rw [between, between, nothing, take_zero, take_zero]

theorem contents_later {log : List (List (Update κ ν))} {start stop : Nat} (later : start ≤ stop) :
    contents log stop = replay (between log start stop) (contents log start) := by
  rw [contents, contents, ← between_append (Nat.zero_le start) later, replay_append]

theorem contents_append_log {log : List (List (Update κ ν))} {revision : Nat} (within : revision ≤ log.length)
    (more : List (List (Update κ ν))) : contents (log ++ more) revision = contents log revision := by
  rw [contents, contents, between_append_log within]

/-- The key is written after `start`, up to `stop`. -/
def Touched (log : List (List (Update κ ν))) (start stop : Nat) (key : κ) : Prop :=
  ∃ update ∈ between log start stop, update.key = key

omit [DecidableEq κ] in
theorem touched_split {log : List (List (Update κ ν))} {start middle stop : Nat} (first : start ≤ middle)
    (second : middle ≤ stop) {key : κ} :
    Touched log start stop key ↔ Touched log start middle key ∨ Touched log middle stop key := by
  simp only [Touched, ← between_append first second, mem_append, or_and_right, exists_or]

theorem contents_of_untouched {log : List (List (Update κ ν))} {start stop : Nat} (later : start ≤ stop) {key : κ}
    (untouched : ¬Touched log start stop key) : contents log stop key = contents log start key := by
  rw [contents_later later]
  exact replay_untouched (fun update mem same => untouched ⟨update, mem, same⟩) _

/-! ## Starting again -/

/-- A reader at `position` that has been as far as `furthest`. -/
structure Trails (log : List (List (Update κ ν))) (state : κ → Option ν) (position furthest : Nat) : Prop where
  reached : position ≤ furthest
  known : ∀ key, state key = contents log position key ∨ Touched log position furthest key

namespace Trails

variable {log : List (List (Update κ ν))} {state : κ → Option ν} {position furthest : Nat}

theorem start (log : List (List (Update κ ν))) (revision : Nat) :
    Trails log (contents log revision) revision revision :=
  ⟨Nat.le_refl _, fun _ => .inl rfl⟩

section

variable (trails : Trails log state position furthest)
include trails

theorem append_log (within : furthest ≤ log.length)
    (more : List (List (Update κ ν))) : Trails (log ++ more) state position furthest := by
  refine ⟨trails.reached, ?_⟩
  intro key
  rw [contents_append_log (Nat.le_trans trails.reached within), Touched, between_append_log within]
  exact trails.known key

theorem advance {next : Nat} (later : position ≤ next) :
    Trails log (replay (between log position next) state) next (max furthest next) := by
  refine ⟨Nat.le_max_right _ _, ?_⟩
  intro key
  by_cases touched : Touched log position next key
  · left
    rw [contents_later later]
    exact replay_touched touched _ _
  · have same : replay (between log position next) state key = state key :=
      replay_untouched (fun update mem equal => touched ⟨update, mem, equal⟩) state
    rw [same, contents_of_untouched later touched]
    cases trails.known key with
    | inl right => exact .inl right
    | inr pending =>
      -- The write that is still to come is not among those just read.
      right
      by_cases beyond : next ≤ furthest
      · rw [Nat.max_eq_left beyond]
        exact ((touched_split later beyond).mp pending).resolve_left touched
      · have within : furthest ≤ next := Nat.le_of_not_le beyond
        exact absurd ((touched_split trails.reached within).mpr (.inl pending)) touched

theorem restart {earlier : Nat} (before : earlier ≤ position) :
    Trails log state earlier furthest := by
  refine ⟨Nat.le_trans before trails.reached, ?_⟩
  intro key
  by_cases touched : Touched log earlier furthest key
  · exact .inr touched
  · rw [touched_split before trails.reached, not_or] at touched
    obtain ⟨untouched, notPending⟩ := touched
    left
    rw [← contents_of_untouched before untouched]
    exact (trails.known key).resolve_right notPending

theorem caught_up (back : furthest ≤ position) :
    state = contents log position := by
  obtain rfl := Nat.le_antisymm back trails.reached
  funext key
  cases trails.known key with
  | inl right => exact right
  | inr pending =>
    obtain ⟨_, mem, -⟩ := pending
    rw [between, Nat.sub_self, take_zero] at mem
    cases mem

end

end Trails

end Nanoserve.Lib
