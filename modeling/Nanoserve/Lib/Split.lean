import Mathlib.Data.List.Basic

/-! # Splitting on a separator

`splitAt` cuts a list at the occurrences of a separator, from left to right and without overlap, as
`split` does for strings in most languages.
-/

namespace Nanoserve.Lib

open List

variable {α : Type} [DecidableEq α]

/-- `current` has been read since the last occurrence; the next `skip` elements still belong to it. -/
def splitAtFrom (separator : List α) : Nat → List α → List α → List (List α)
  | _, current, [] => [current]
  | skip + 1, current, _ :: rest => splitAtFrom separator skip current rest
  | 0, current, next :: rest =>
    if separator <+: next :: rest then current :: splitAtFrom separator (separator.length - 1) [] rest
    else splitAtFrom separator 0 (current ++ [next]) rest

def splitAt (separator text : List α) : List (List α) := splitAtFrom separator 0 [] text

variable {separator : List α}

theorem splitAtFrom_short {text : List α} (short : text.length < separator.length) (current : List α) :
    splitAtFrom separator 0 current text = [current ++ text] := by
  induction text generalizing current with
  | nil => rw [splitAtFrom, append_nil]
  | cons _ _ ih =>
    rw [splitAtFrom, if_neg fun begins => absurd begins.length_le (Nat.not_le.mpr short),
      ih (Nat.lt_of_succ_lt short), append_assoc, singleton_append]

/-- The separator does not begin anywhere in `current`, with `rest` behind it. -/
def Uncut (separator current rest : List α) : Prop :=
  ∀ front back, current = front ++ back → back ≠ [] → ¬separator <+: back ++ rest

omit [DecidableEq α] in
theorem Uncut.nil (rest : List α) : Uncut separator [] rest := by
  intro front back split ne
  exact absurd (append_eq_nil_iff.mp split.symm).2 ne

omit [DecidableEq α] in
theorem Uncut.append_singleton {current rest : List α} {next : α} (uncut : Uncut separator current (next :: rest))
    (elsewhere : ¬separator <+: next :: rest) : Uncut separator (current ++ [next]) rest := by
  intro front back split ne begins
  obtain ⟨before, _, rfl⟩ := (eq_nil_or_concat' back).resolve_left ne
  rw [← append_assoc] at split
  obtain ⟨currentEq, single⟩ := append_inj' split rfl
  obtain rfl := singleton_inj.mp single
  rw [append_assoc, singleton_append] at begins
  by_cases empty : before = []
  · subst empty
    exact elsewhere begins
  · exact uncut front before currentEq empty begins

theorem splitAtFrom_shift {current rest : List α} (uncut : Uncut separator current rest) (earlier : List α) :
    splitAtFrom separator 0 earlier (current ++ rest) = splitAtFrom separator 0 (earlier ++ current) rest := by
  induction current generalizing earlier with
  | nil => rw [nil_append, append_nil]
  | cons next current ih =>
    have here : ¬separator <+: next :: (current ++ rest) := uncut [] (next :: current) rfl (cons_ne_nil _ _)
    have later : Uncut separator current rest := by
      intro front back split
      exact uncut (next :: front) back (by rw [split, cons_append])
    rw [cons_append, splitAtFrom, if_neg here, ih later, append_assoc, singleton_append]

-- By induction on the first text.  An occurrence that begins in it and ends behind it
-- leaves no room in it for another one.
theorem splitAtFrom_append {skip : Nat} {current : List α} (first second : List α)
    (inside : skip ≤ first.length) (uncut : Uncut separator current (first ++ second)) (fresh : skip ≠ 0 → current = []) :
    ∃ parts last, splitAtFrom separator skip current first = parts ++ [last] ∧
      splitAtFrom separator skip current (first ++ second) = parts ++ splitAt separator (last ++ second) := by
  induction first generalizing skip current with
  | nil =>
    obtain rfl := Nat.le_zero.mp inside
    rw [nil_append] at uncut
    refine ⟨[], current, by rw [splitAtFrom]; rfl, ?_⟩
    rw [nil_append, nil_append, splitAt, splitAtFrom_shift uncut, nil_append]
  | cons next rest ih =>
    cases skip with
    | succ =>
      obtain rfl := fresh (Nat.succ_ne_zero _)
      rw [cons_append, splitAtFrom, splitAtFrom]
      exact ih (Nat.le_of_succ_le_succ inside) (.nil _) fun _ => rfl
    | zero =>
      rw [cons_append] at uncut
      rw [cons_append, splitAtFrom, splitAtFrom]
      by_cases here : separator <+: next :: rest
      · have both : separator <+: next :: (rest ++ second) := here.trans ⟨second, rfl⟩
        have room := here.length_le
        rw [length_cons] at room
        obtain ⟨parts, last, firstEq, bothEq⟩ := @ih (separator.length - 1) [] (by omega) (.nil _) fun _ => rfl
        rw [if_pos here, if_pos both, firstEq, bothEq]
        exact ⟨current :: parts, last, rfl, rfl⟩
      · by_cases across : separator <+: next :: (rest ++ second)
        · have short : (next :: rest).length < separator.length := by
            by_contra long
            exact here (prefix_of_prefix_length_le across ⟨second, rfl⟩ (Nat.le_of_not_lt long))
          refine ⟨[], current ++ next :: rest, ?_, ?_⟩
          · rw [if_neg here, splitAtFrom_short (Nat.lt_of_succ_lt short), append_assoc, singleton_append]
            rfl
          · rw [nil_append, splitAt, append_assoc, cons_append, splitAtFrom_shift uncut, nil_append,
              splitAtFrom]
        · rw [if_neg here, if_neg across]
          exact ih (Nat.zero_le _) (uncut.append_singleton across) fun busy => absurd rfl busy

theorem splitAt_append (separator first second : List α) :
    ∃ parts last, splitAt separator first = parts ++ [last] ∧
      splitAt separator (first ++ second) = parts ++ splitAt separator (last ++ second) :=
  splitAtFrom_append first second (Nat.zero_le _) (.nil _) fun busy => absurd rfl busy

theorem splitAt_last {first last : List α} {parts : List (List α)} (split : splitAt separator first = parts ++ [last]) :
    splitAt separator last = [last] := by
  obtain ⟨_, _, splitToo, appended⟩ := splitAt_append separator first []
  obtain ⟨rfl, single⟩ := append_inj' (split.symm.trans splitToo) rfl
  obtain rfl := singleton_inj.mp single
  rw [append_nil, append_nil, split, append_cancel_left_eq] at appended
  exact appended.symm

/-! ## A separator of one element -/

theorem splitAtFrom_element {mark : α} {part : List α} (absent : mark ∉ part) (current rest : List α) :
    splitAtFrom [mark] 0 current (part ++ mark :: rest) = (current ++ part) :: splitAt [mark] rest := by
  induction part generalizing current with
  | nil => rw [nil_append, append_nil, splitAtFrom, if_pos ⟨rest, rfl⟩]; rfl
  | cons next part ih =>
    obtain ⟨differs, later⟩ := not_or.mp (mt mem_cons.mpr absent)
    have elsewhere : ¬[mark] <+: next :: (part ++ mark :: rest) := by
      rw [cons_prefix_cons]
      exact fun begins => differs begins.1
    rw [cons_append, splitAtFrom, if_neg elsewhere, ih later, append_assoc,
      singleton_append]

theorem splitAt_marked {mark : α} {parts : List (List α)} (absent : ∀ part ∈ parts, mark ∉ part) :
    splitAt [mark] (parts.flatMap fun part => part ++ [mark]) = parts ++ [[]] := by
  induction parts with
  | nil => rfl
  | cons _ _ ih =>
    obtain ⟨here, later⟩ := forall_mem_cons.mp absent
    rw [flatMap_cons, append_assoc, singleton_append, splitAt, splitAtFrom_element here,
      ih later, nil_append, cons_append]

end Nanoserve.Lib
