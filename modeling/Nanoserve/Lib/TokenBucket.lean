import Mathlib.Algebra.BigOperators.Group.List.Basic
import Mathlib.Algebra.Order.Field.Basic
import Mathlib.Tactic.Linarith
import Mathlib.Tactic.Ring

/-! # Token buckets

A bucket holds at most `capacity` and fills at `rate`.
-/

namespace Nanoserve.Lib

open List

variable {K : Type} [Field K] [LinearOrder K]

structure Bucket (K : Type) where
  level : K
  since : K

/-- What is in the bucket at a time.  A bucket that was never used is full. -/
def available (capacity rate : K) (bucket : Option (Bucket K)) (time : K) : K :=
  match bucket with
  | none => capacity
  | some bucket => min capacity (bucket.level + max 0 (time - bucket.since) * rate)

variable {capacity rate : K}

theorem available_le_capacity (bucket : Option (Bucket K)) (time : K) :
    available capacity rate bucket time ≤ capacity := by
  cases bucket with
  | none => exact le_refl _
  | some => exact min_le_left _ _

section Ordered

variable [IsStrictOrderedRing K]
variable {bucket : Bucket K} {time : K}

theorem available_nonneg (pos : 0 ≤ capacity) (fills : 0 ≤ rate) {bucket : Option (Bucket K)}
    (holds : ∀ stored, bucket = some stored → 0 ≤ stored.level) (time : K) :
    0 ≤ available capacity rate bucket time := by
  cases bucket with
  | none => exact pos
  | some bucket =>
    have level := holds bucket rfl
    have inflow : 0 ≤ max 0 (time - bucket.since) * rate := mul_nonneg (le_max_left _ _) fills
    exact le_min pos (add_nonneg level inflow)

theorem available_le_inflow (later : bucket.since ≤ time) :
    available capacity rate (some bucket) time ≤ bucket.level + (time - bucket.since) * rate := by
  rw [available, max_eq_right (sub_nonneg.mpr later)]
  exact min_le_right _ _

theorem le_available_iff {need : K} (fits : need ≤ capacity) (fills : 0 < rate) (later : bucket.since ≤ time) :
    need ≤ available capacity rate (some bucket) time ↔ bucket.since + (need - bucket.level) / rate ≤ time := by
  show need ≤ min capacity (bucket.level + max 0 (time - bucket.since) * rate) ↔ _
  rw [max_eq_right (sub_nonneg.mpr later), le_min_iff, ← le_sub_iff_add_le', div_le_iff₀ fills, sub_le_iff_le_add']
  exact and_iff_right fits

theorem min_add_min (level : K) {more : K} (nonneg : 0 ≤ more) :
    min capacity (min capacity level + more) = min capacity (level + more) := by
  cases le_total capacity level with
  | inl full =>
    rw [min_eq_left full, min_eq_left (le_add_of_nonneg_right nonneg), min_eq_left (le_add_of_le_of_nonneg full nonneg)]
  | inr below => rw [min_eq_right below]

theorem available_settled (fills : 0 ≤ rate) {bucket : Option (Bucket K)} {now : K}
    (past : ∀ stored, bucket = some stored → stored.since ≤ now) (later : now ≤ time) :
    available capacity rate (some ⟨available capacity rate bucket now, now⟩) time =
      available capacity rate bucket time := by
  have inflow : 0 ≤ (time - now) * rate := mul_nonneg (sub_nonneg.mpr later) fills
  show min capacity (available capacity rate bucket now + max 0 (time - now) * rate) = _
  rw [max_eq_right (sub_nonneg.mpr later)]
  cases bucket with
  | none => exact min_eq_left (le_add_of_nonneg_right inflow)
  | some bucket =>
    have written := past bucket rfl
    simp only [available, max_eq_right (sub_nonneg.mpr written), max_eq_right (sub_nonneg.mpr (written.trans later))]
    rw [min_add_min _ inflow]
    congr 1
    ring

end Ordered

/-- A bucket in use: at a time an amount is taken out of it, and at least what is
left was there.  A negative amount is put in. -/
inductive Draws (capacity rate : K) : Option (Bucket K) → List (K × K) → Prop
  | done (bucket : Option (Bucket K)) : Draws capacity rate bucket []
  | draw {bucket : Option (Bucket K)} {left : Bucket K} {amount : K} {draws : List (K × K)}
    (later : ∀ before, bucket = some before → before.since ≤ left.since) (nonneg : 0 ≤ left.level)
    (paid : amount + left.level ≤ available capacity rate bucket left.since)
    (rest : Draws capacity rate (some left) draws) : Draws capacity rate bucket ((left.since, amount) :: draws)

/-- What is taken from `start` to `stop`. -/
def takenWithin (start stop : K) (draws : List (K × K)) : K :=
  ((draws.filter fun draw => start ≤ draw.1 ∧ draw.1 ≤ stop).map Prod.snd).sum

theorem takenWithin_cons (start stop : K) (draw : K × K) (draws : List (K × K)) :
    takenWithin start stop (draw :: draws) =
      (if start ≤ draw.1 ∧ draw.1 ≤ stop then draw.2 else 0) + takenWithin start stop draws := by
  unfold takenWithin
  rw [filter_cons]
  split
  · next inside => rw [if_pos (of_decide_eq_true inside), map_cons, sum_cons]
  · next outside => rw [if_neg (fun inside => outside (decide_eq_true inside)), zero_add]

namespace Draws

theorem since_le (drawn : Draws capacity rate (some bucket) draws) : ∀ draw ∈ draws, bucket.since ≤ draw.1 := by
  induction draws generalizing bucket with
  | nil => nofun
  | cons draw _ ih =>
    cases drawn with
    | draw later _ _ rest =>
      have first := later bucket rfl
      intro other mem
      rcases mem_cons.mp mem with rfl | inRest
      · exact first
      · exact first.trans (ih rest other inRest)

theorem takenWithin_past (drawn : Draws capacity rate (some bucket) draws) (past : stop < bucket.since) :
    takenWithin start stop draws = 0 := by
  have none : draws.filter (fun draw => start ≤ draw.1 ∧ draw.1 ≤ stop) = [] := by
    refine filter_eq_nil_iff.mpr ?_
    intro draw mem inside
    have inside := of_decide_eq_true inside
    exact absurd (inside.2.trans_lt past) (not_lt.mpr (drawn.since_le draw mem))
  rw [takenWithin, none, map_nil, sum_nil]

variable [IsStrictOrderedRing K]

theorem takenWithin_le_level (fills : 0 ≤ rate) (drawn : Draws capacity rate (some bucket) draws)
    (nonneg : 0 ≤ bucket.level) (inside : start ≤ bucket.since) (before : bucket.since ≤ stop) :
    takenWithin start stop draws ≤ bucket.level + (stop - bucket.since) * rate := by
  induction draws generalizing bucket with
  | nil => exact add_nonneg nonneg (mul_nonneg (sub_nonneg.mpr before) fills)
  | cons draw draws ih =>
    cases drawn with
    | @draw _ left amount _ later leftNonneg paid rest =>
      have onward := later bucket rfl
      rw [takenWithin_cons]
      -- A draw after the end of the interval is the first of many.
      by_cases inTime : left.since ≤ stop
      · have tail := ih rest leftNonneg (inside.trans onward) inTime
        have had := paid.trans (available_le_inflow onward)
        rw [if_pos ⟨inside.trans onward, inTime⟩]
        calc amount + takenWithin start stop draws
            ≤ amount + (left.level + (stop - left.since) * rate) := by gcongr
          _ = amount + left.level + (stop - left.since) * rate := by ring
          _ ≤ bucket.level + (left.since - bucket.since) * rate + (stop - left.since) * rate := by gcongr
          _ = bucket.level + (stop - bucket.since) * rate := by ring
      · rw [if_neg (fun within => inTime within.2), rest.takenWithin_past (not_le.mp inTime), zero_add]
        exact add_nonneg nonneg (mul_nonneg (sub_nonneg.mpr before) fills)

theorem takenWithin_le {bucket : Option (Bucket K)} (pos : 0 ≤ capacity) (fills : 0 ≤ rate)
    (drawn : Draws capacity rate bucket draws) (interval : start ≤ stop) :
    takenWithin start stop draws ≤ capacity + (stop - start) * rate := by
  have bound := add_nonneg pos (mul_nonneg (sub_nonneg.mpr interval) fills)
  induction drawn with
  | done => exact bound
  | @draw _ left amount draws later nonneg paid rest ih =>
    rw [takenWithin_cons]
    by_cases inside : start ≤ left.since ∧ left.since ≤ stop
    · have tail := rest.takenWithin_le_level fills nonneg inside.1 inside.2
      have had := paid.trans (available_le_capacity _ _)
      rw [if_pos inside]
      calc amount + takenWithin start stop draws
          ≤ amount + (left.level + (stop - left.since) * rate) := by gcongr
        _ = amount + left.level + (stop - left.since) * rate := by ring
        _ ≤ capacity + (stop - start) * rate := by
          gcongr
          exact inside.1
    · rw [if_neg inside, zero_add]
      exact ih

end Draws

/-! ## The clock

A bucket that counts a step back as no time at all is still credited for every step
forward.
-/

/-- How far a clock goes forward from each reading to the next, all steps together. -/
def climbed : List K → K
  | first :: second :: rest => max 0 (second - first) + climbed (second :: rest)
  | [_] | [] => 0

/-- Once the clock has gone back, it does not go forward again. -/
def RisesFirst : List K → Prop
  | first :: second :: rest =>
    if first ≤ second then RisesFirst (second :: rest) else (first :: second :: rest).Pairwise (· ≥ ·)
  | [_] | [] => True

def RisesFirst.decide : (readings : List K) → Decidable (RisesFirst readings)
  | first :: second :: rest =>
    have := RisesFirst.decide (second :: rest)
    inferInstanceAs (Decidable (if first ≤ second then _ else _))
  | [_] | [] => .isTrue trivial

instance (readings : List K) : Decidable (RisesFirst readings) := RisesFirst.decide readings

section Clock

variable [IsStrictOrderedRing K]

theorem climbed_nonneg (readings : List K) : 0 ≤ climbed readings := by
  fun_induction climbed readings with
  | case1 _ _ _ ih => exact add_nonneg (le_max_left _ _) ih
  | case2 | case3 => exact le_refl _

theorem climbed_le_cons (first : K) (rest : List K) : climbed rest ≤ climbed (first :: rest) := by
  cases rest with
  | nil => exact le_refl _
  | cons => exact le_add_of_nonneg_left (le_max_left _ _)

theorem highest_le_climbed (first : K) (rest : List K) : rest.foldl max first ≤ first + climbed (first :: rest) := by
  induction rest generalizing first with
  | nil => simp [climbed]
  | cons second rest ih =>
    rw [foldl_cons, foldl_assoc, climbed]
    have onward := ih second
    have step := le_max_right 0 (second - first)
    have nonneg := add_nonneg (le_max_left 0 (second - first)) (climbed_nonneg (second :: rest))
    exact max_le (by linarith) (by linarith)

theorem climbed_eq_zero_iff (readings : List K) : climbed readings = 0 ↔ readings.Pairwise (· ≥ ·) := by
  rw [← isChain_iff_pairwise]
  fun_induction climbed readings with
  | case1 _ _ _ ih =>
    rw [add_eq_zero_iff_of_nonneg (le_max_left _ _) (climbed_nonneg _), max_eq_left_iff, sub_nonpos, ih,
      isChain_cons_cons]
  | case2 | case3 => simp

theorem climbed_le_iff (first : K) (rest : List K) :
    climbed (first :: rest) ≤ rest.foldl max first - first ↔ RisesFirst (first :: rest) := by
  induction rest generalizing first with
  | nil => simp [climbed, RisesFirst]
  | cons second rest ih =>
    rw [foldl_cons, climbed, RisesFirst]
    by_cases onward : first ≤ second
    · rw [if_pos onward, max_eq_right onward, max_eq_right (sub_nonneg.mpr onward), ← ih]
      constructor
      · intro bounded
        linarith
      · intro bounded
        linarith
    · have back : second - first ≤ 0 := by linarith
      rw [if_neg onward, foldl_assoc, max_eq_left back, zero_add]
      have reached := highest_le_climbed second rest
      constructor
      · intro bounded
        -- A reading above the first would be a second climb over the same stretch.
        have below : rest.foldl max second ≤ first := by
          by_contra above
          rw [max_eq_right (not_le.mp above).le] at bounded
          linarith
        rw [max_eq_left below, sub_self] at bounded
        have falls := (climbed_eq_zero_iff _).mp (le_antisymm bounded (climbed_nonneg _))
        refine pairwise_cons.mpr ⟨?_, falls⟩
        intro reading mem
        rcases mem_cons.mp mem with rfl | inRest
        · linarith
        · exact ((pairwise_cons.mp falls).1 reading inRest).trans (le_of_not_ge onward)
      · intro falls
        rw [(climbed_eq_zero_iff _).mpr (pairwise_cons.mp falls).2]
        exact sub_nonneg.mpr (le_max_left _ _)

end Clock

end Nanoserve.Lib
