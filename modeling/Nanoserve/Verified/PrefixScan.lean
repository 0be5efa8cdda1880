import Mathlib.Data.List.Induction
import Nanoserve.Engine.Discovery

/-! # Prefix scans

etcd has ranges of keys and no prefixes.
-/

namespace Nanoserve.Verified

open Engine List

theorem rangeEndFrom_snoc (lead rest : List UInt8) (byte : UInt8) :
    rangeEndFrom (lead ++ byte :: rest) (lead.length + 1) =
      if byte < 0xFF then lead ++ [byte + 1] else rangeEndFrom (lead ++ 0 :: rest) lead.length := by
  have last : (lead ++ byte :: rest).getD lead.length 0 = byte := by simp
  have raised : (lead ++ (byte + 1) :: rest).take (lead.length + 1) = lead ++ [byte + 1] := by
    rw [take_length_add_append]
    rfl
  rw [rangeEndFrom, last]
  simp [raised]

theorem rangeEndFrom_append (lead rest : List UInt8) : rangeEndFrom (lead ++ rest) lead.length = rangeEnd lead := by
  induction lead using reverseRecOn generalizing rest with
  | nil => rfl
  | append_singleton _ _ ih =>
    rw [rangeEnd, length_append, length_singleton, append_assoc, singleton_append,
      rangeEndFrom_snoc, rangeEndFrom_snoc, ih, ih]

theorem rangeEnd_snoc (lead : List UInt8) (byte : UInt8) :
    rangeEnd (lead ++ [byte]) = if byte < 0xFF then lead ++ [byte + 1] else rangeEnd lead := by
  rw [rangeEnd, length_append, length_singleton, rangeEndFrom_snoc, rangeEndFrom_append]

theorem toNat_succ {byte : UInt8} (low : byte < 0xFF) : (byte + 1).toNat = byte.toNat + 1 := by
  have bound : byte.toNat < 255 := UInt8.lt_iff_toNat_lt.mp low
  exact Nat.mod_eq_of_lt (Nat.succ_lt_succ bound)

theorem between_iff {byte : UInt8} (low : byte < 0xFF) (lead key : List UInt8) :
    lead ++ [byte] ≤ key ∧ key < lead ++ [byte + 1] ↔ lead ++ [byte] <+: key := by
  induction lead generalizing key with
  | nil =>
    cases key with
    | nil => simp
    | cons =>
      simp only [nil_append, cons_le_cons_iff, cons_lt_cons_iff, cons_prefix_cons, not_lt_nil,
        nil_le, nil_prefix, and_false, or_false, and_true, UInt8.lt_iff_toNat_lt, ← UInt8.toNat_inj,
        toNat_succ low]
      omega
  | cons _ _ ih =>
    cases key with
    | nil => simp
    | cons _ key =>
      simp only [cons_append, cons_le_cons_iff, cons_lt_cons_iff, cons_prefix_cons, ← ih key]
      constructor
      · rintro ⟨above | ⟨rfl, le⟩, below | ⟨same, lt⟩⟩
        · exact absurd below (UInt8.lt_asymm above)
        · exact absurd same.symm (UInt8.ne_of_lt above)
        · exact absurd below (UInt8.lt_irrefl _)
        · exact ⟨rfl, le, lt⟩
      · rintro ⟨rfl, le, lt⟩
        exact ⟨.inr ⟨rfl, le⟩, .inr ⟨rfl, lt⟩⟩

/-- The range from a string to its range end has the keys that start with it. -/
theorem inRange_rangeEnd_iff (raw key : List UInt8) : inRange raw (rangeEnd raw) key ↔ raw <+: key := by
  -- From the back: a last byte of 0xFF leaves the end to the bytes before it.
  induction raw using List.reverseRecOn with
  | nil => simp [inRange, rangeEnd, rangeEndFrom]
  | append_singleton lead byte ih =>
    rw [inRange, rangeEnd_snoc]
    split
    · next low =>
      have bounded : lead ++ [byte + 1] ≠ [0] := by
        intro same
        have zero : byte + 1 = 0 := by simpa using congrArg List.getLast? same
        have positive := toNat_succ low
        rw [zero] at positive
        exact Nat.succ_ne_zero _ positive.symm
      rw [or_iff_right bounded, between_iff low]
    · next full =>
      have shorter : lead ≤ lead ++ [byte] := (List.prefix_append _ _).le
      constructor
      · rintro ⟨le, ends⟩
        obtain ⟨rest, rfl⟩ := ih.mp ⟨List.le_trans shorter le, ends⟩
        have tail : [byte] ≤ rest := fun less => le (List.append_left_lt less)
        rw [List.prefix_append_right_inj]
        cases rest with
        | nil => simp at tail
        | cons first rest =>
          have top : ¬byte < first := by
            have large : 255 ≤ byte.toNat := Nat.le_of_not_lt fun less => full (UInt8.lt_iff_toNat_lt.mpr less)
            have bound := first.toNat_lt
            rw [UInt8.lt_iff_toNat_lt]
            omega
          rw [List.cons_le_cons_iff, or_iff_right top] at tail
          rw [tail.1]
          exact List.prefix_append [first] rest
      · intro starts
        exact ⟨starts.le, (ih.mpr ((List.prefix_append _ _).trans starts)).2⟩

end Nanoserve.Verified
