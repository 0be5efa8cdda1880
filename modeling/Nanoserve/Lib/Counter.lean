import Mathlib.Algebra.Order.Group.Int
import Nanoserve.Lib.Dict

/-! # Counters

A dictionary of counts.
-/

namespace Nanoserve.Lib

abbrev Counter (κ : Type) := Dict κ Int

namespace Counter

variable {κ : Type} [DecidableEq κ]
variable {counter : Counter κ} {n : Int}

def count (counter : Counter κ) (key : κ) : Int := (counter.get? key).getD 0

/-- `counter[key] += n`. -/
def increase (counter : Counter κ) (key : κ) (n : Int) : Counter κ := counter.set key (counter.count key + n)

/-- `counter[key] -= n`, and the key is dropped once nothing is left. -/
def decrease (counter : Counter κ) (key : κ) (n : Int) : Counter κ :=
  let less := counter.increase key (-n)
  if less.count key ≤ 0 then less.erase key else less

def Positive (counter : Counter κ) : Prop := ∀ key n, counter.get? key = some n → 0 < n

theorem positive_empty : Positive (Dict.empty : Counter κ) := fun _ _ held => absurd held (by simp)

theorem count_increase (counter : Counter κ) (changed key : κ) (n : Int) :
    (counter.increase changed n).count key = counter.count key + if key = changed then n else 0 := by
  simp only [count, increase, Dict.get?_set]
  by_cases same : key = changed
  · simp [same]
  · simp [same]

theorem mem_keys_increase {changed key : κ} :
    key ∈ (counter.increase changed n).keys ↔ key = changed ∨ key ∈ counter.keys := by
  simp only [Dict.mem_keys_iff_isSome, increase, Dict.get?_set]
  by_cases same : key = changed <;> simp [same]

theorem count_decrease {changed : κ} (enough : n ≤ counter.count changed) (key : κ) :
    (counter.decrease changed n).count key = counter.count key - if key = changed then n else 0 := by
  simp only [decrease]
  split
  case isTrue gone =>
    rw [count_increase, if_pos rfl] at gone
    by_cases same : key = changed
    · subst same
      have dropped : count ((counter.increase key (-n)).erase key) key = 0 := by
        simp [count, Dict.get?_erase]
      rw [dropped, if_pos rfl]
      omega
    · simp [count, Dict.get?_erase, increase, Dict.get?_set, same]
  case isFalse =>
    rw [count_increase]
    by_cases same : key = changed
    · simp [same]
      omega
    · simp [same]

theorem Positive.increase (pos : Positive counter) (key : κ) (more : 0 < n) :
    Positive (counter.increase key n) := by
  intro other held found
  rw [Counter.increase, Dict.get?_set] at found
  split at found
  case isTrue =>
    cases found
    have before : 0 ≤ counter.count key := by
      unfold count
      cases there : counter.get? key with
      | none => exact Int.le_refl 0
      | some old => exact (pos key old there).le
    omega
  case isFalse => exact pos other held found

theorem Positive.decrease (pos : Positive counter) (key : κ) (n : Int) : Positive (counter.decrease key n) := by
  intro other held found
  simp only [Counter.decrease] at found
  split at found
  case isTrue =>
    rw [Dict.get?_erase, Counter.increase, Dict.get?_set] at found
    split at found
    case isTrue => cases found
    case isFalse => exact pos other held found
  case isFalse left =>
    rw [count_increase, if_pos rfl] at left
    rw [Counter.increase, Dict.get?_set] at found
    split at found
    case isTrue =>
      cases found
      omega
    case isFalse => exact pos other held found

theorem Positive.mem_keys (pos : Positive counter) {key : κ} : key ∈ counter.keys ↔ 0 < counter.count key := by
  rw [Dict.mem_keys, count]
  cases there : counter.get? key with
  | none => simp
  | some n => simpa using pos key n there

end Counter

end Nanoserve.Lib
