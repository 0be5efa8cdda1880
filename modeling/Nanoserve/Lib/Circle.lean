import Mathlib.Data.List.MinMax
import Mathlib.Data.List.Sort

/-! # Sorted lists read as circles

Points have positions `0, …, size - 1` on a circle.
-/

namespace Nanoserve.Lib

open List

variable {α : Type} {position : α → Nat} {points : List α} {start size : Nat}

def clockwise (position : α → Nat) (start : Nat) (points : List α) : List α :=
  points.filter (fun point => start ≤ position point) ++ points.filter fun point => position point < start

/-- How far it is from `start` to `target`. -/
def distance (size start target : Nat) : Nat := (size - start + target) % size

theorem distance_ahead (ahead : start ≤ target) (bound : target < size) :
    distance size start target = target - start := by
  have regrouped : size - start + target = size + (target - start) := by omega
  rw [distance, regrouped, Nat.add_mod_left, Nat.mod_eq_of_lt (by omega)]

theorem distance_behind (behind : target < start) (bound : start < size) :
    distance size start target = size - start + target := by
  rw [distance, Nat.mod_eq_of_lt (by omega)]

@[simp] theorem mem_clockwise {point : α} : point ∈ clockwise position start points ↔ point ∈ points := by
  simp only [clockwise, mem_append, mem_filter, decide_eq_true_eq]
  have side := Nat.lt_or_ge (position point) start
  tauto

theorem clockwise_filter (keep : α → Bool) :
    clockwise position start (points.filter keep) = (clockwise position start points).filter keep := by
  simp only [clockwise, filter_append, filter_filter, Bool.and_comm]

section

variable (sorted : points.Pairwise fun first second => position first ≤ position second)
include sorted

theorem cut_sorted :
    points.drop (points.findIdx fun point => decide (start ≤ position point)) =
        points.filter (fun point => start ≤ position point) ∧
      points.take (points.findIdx fun point => decide (start ≤ position point)) =
        points.filter fun point => position point < start := by
  induction points with
  | nil => exact ⟨rfl, rfl⟩
  | cons point points ih =>
    obtain ⟨least, rest⟩ := pairwise_cons.mp sorted
    obtain ⟨dropped, taken⟩ := ih rest
    by_cases ahead : start ≤ position point
    · have everyone : ∀ other ∈ points, start ≤ position other := fun other mem => ahead.trans (least other mem)
      have kept : points.filter (fun other => start ≤ position other) = points :=
        filter_eq_self.mpr fun other mem => decide_eq_true (everyone other mem)
      have none : points.filter (fun other => position other < start) = [] :=
        filter_eq_nil_iff.mpr fun other mem => by simpa using everyone other mem
      simp [findIdx_cons, ahead, kept, none]
    · have behind : position point < start := Nat.lt_of_not_le ahead
      simp [findIdx_cons, ahead, behind, dropped, taken]

theorem rotation_eq_clockwise :
    points.drop (points.findIdx fun point => decide (start ≤ position point)) ++
      points.take (points.findIdx fun point => decide (start ≤ position point)) = clockwise position start points := by
  obtain ⟨dropped, taken⟩ := @cut_sorted α position points start sorted
  rw [dropped, taken, clockwise]

theorem clockwise_pairwise
    (inside : start < size) (bounded : ∀ point ∈ points, position point < size) :
    (clockwise position start points).Pairwise fun first second =>
      distance size start (position first) ≤ distance size start (position second) := by
  refine pairwise_append.mpr ⟨?_, ?_, ?_⟩
  · refine (sorted.filter _).imp_of_mem ?_
    intro first second firstIn secondIn le
    obtain ⟨firstIn, firstAhead⟩ := mem_filter.mp firstIn
    obtain ⟨secondIn, secondAhead⟩ := mem_filter.mp secondIn
    rw [distance_ahead (of_decide_eq_true firstAhead) (bounded first firstIn),
      distance_ahead (of_decide_eq_true secondAhead) (bounded second secondIn)]
    exact Nat.sub_le_sub_right le start
  · refine (sorted.filter _).imp_of_mem ?_
    intro first second firstIn secondIn le
    rw [distance_behind (of_decide_eq_true (mem_filter.mp firstIn).2) inside,
      distance_behind (of_decide_eq_true (mem_filter.mp secondIn).2) inside]
    exact Nat.add_le_add_left le _
  · intro first firstIn second secondIn
    obtain ⟨firstIn, firstAhead⟩ := mem_filter.mp firstIn
    have bound := bounded first firstIn
    rw [distance_ahead (of_decide_eq_true firstAhead) bound,
      distance_behind (of_decide_eq_true (mem_filter.mp secondIn).2) inside]
    omega

end

/-! ## The first point of a kind -/

theorem find?_filter_of_kept {kind keep : α → Bool} {found : α} (first : points.find? kind = some found)
    (kept : keep found = true) : (points.filter keep).find? kind = some found := by
  obtain ⟨isKind, front, back, rfl, before⟩ := find?_eq_some_iff_append.mp first
  refine find?_eq_some_iff_append.mpr ⟨isKind, front.filter keep, back.filter keep, ?_, ?_⟩
  · rw [filter_append, filter_cons_of_pos kept]
  · exact fun other mem => before other (mem_filter.mp mem).1

theorem find?_least {kind : α → Bool} {measure : α → Nat} {found : α}
    (ordered : points.Pairwise fun first second => measure first ≤ measure second)
    (first : points.find? kind = some found) {other : α} (mem : other ∈ points) (isKind : kind other = true) :
    measure found ≤ measure other := by
  obtain ⟨-, front, _, rfl, before⟩ := find?_eq_some_iff_append.mp first
  have notBefore : other ∉ front := by
    intro inFront
    have no := before other inFront
    rw [isKind] at no
    cases no
  rcases mem_cons.mp ((mem_append.mp mem).resolve_left notBefore) with rfl | inBack
  · exact Nat.le_refl _
  · exact (pairwise_cons.mp (pairwise_append.mp ordered).2.1).1 other inBack

theorem argmin_filter_of_kept {keep : α → Bool} {measure : α → Nat} {found : α}
    (least : points.argmin measure = some found) (kept : keep found = true) :
    (points.filter keep).argmin measure = some found := by
  induction points with
  | nil => cases least
  | cons point points ih =>
    rw [argmin_cons] at least
    cases best : points.argmin measure with
    | none =>
      rw [best] at least
      obtain rfl := Option.some.inj least
      rw [argmin_eq_none.mp best, filter_cons_of_pos kept]
      rfl
    | some =>
      simp only [best] at least
      split at least
      · next less =>
        obtain rfl := Option.some.inj least
        have rest := ih best
        rw [filter_cons]
        split
        · simp only [argmin_cons, rest, less, if_true]
        · exact rest
      · next notLess =>
        obtain rfl := Option.some.inj least
        rw [filter_cons_of_pos kept, argmin_cons]
        cases rest : (points.filter keep).argmin measure with
        | none => rfl
        | some later =>
          have mem := (mem_filter.mp (argmin_mem rest)).1
          have notEarlier := le_of_mem_argmin mem best
          simp only [if_neg (show ¬measure later < measure point by omega)]

theorem argmin_map {β : Type} (convert : α → β) (measure : β → Nat) (points : List α) :
    (points.map convert).argmin measure = (points.argmin fun point => measure (convert point)).map convert := by
  induction points with
  | nil => rfl
  | cons point points ih =>
    rw [map_cons, argmin_cons, argmin_cons, ih]
    cases points.argmin fun point => measure (convert point) with
    | none => rfl
    | some =>
      simp only [Option.map_some]
      split <;> rfl

/-! ## Sorted lists of points at different positions -/

theorem eq_of_perm_of_sorted {first second : List α} (perm : first.Perm second)
    (sorted : first.Pairwise fun left right => position left ≤ position right)
    (sortedToo : second.Pairwise fun left right => position left ≤ position right)
    (distinct : (first.map position).Nodup) : first = second := by
  refine Perm.eq_of_pairwise ?_ sorted sortedToo perm
  intro left right leftIn rightIn le ge
  exact inj_on_of_nodup_map distinct leftIn (perm.symm.subset rightIn) (Nat.le_antisymm le ge)

end Nanoserve.Lib
