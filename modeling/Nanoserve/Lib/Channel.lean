import Mathlib.Data.List.Basic

/-! # Buffered channels

A first-in first-out buffer of a fixed capacity, with the two operations of a `select` that does not
wait.
-/

namespace Nanoserve.Lib

structure Channel (α : Type) where
  capacity : Nat
  positive : 0 < capacity
  queue : List α
  bounded : queue.length ≤ capacity

namespace Channel

variable {α : Type}
variable {channel : Channel α} {value : α}

def trySend (channel : Channel α) (value : α) : Option (Channel α) :=
  if room : channel.queue.length < channel.capacity then
    some { channel with
      queue := channel.queue ++ [value]
      bounded := by
        rw [List.length_append, List.length_singleton]
        exact room }
  else none

def tryReceive (channel : Channel α) : Option (α × Channel α) :=
  match held : channel.queue with
  | [] => none
  | value :: queue =>
    some (value, { channel with
      queue
      bounded := by
        have bounded := channel.bounded
        rw [held, List.length_cons] at bounded
        exact Nat.le_of_succ_le bounded })

theorem trySend_queue {next : Channel α} (sent : channel.trySend value = some next) :
    next.queue = channel.queue ++ [value] := by
  unfold trySend at sent
  split at sent
  · cases sent
    rfl
  · cases sent

theorem ne_nil_of_full (full : channel.trySend value = none) : channel.queue ≠ [] := by
  intro empty
  have room : channel.queue.length < channel.capacity := by
    rw [empty]
    exact channel.positive
  simp [trySend, room] at full

theorem tryReceive_eq_none : channel.tryReceive = none ↔ channel.queue = [] := by
  unfold tryReceive
  split
  · next empty => simp [empty]
  · next value queue held => simp [held]

theorem tryReceive_queue {next : Channel α} (received : channel.tryReceive = some (value, next)) :
    channel.queue = value :: next.queue := by
  unfold tryReceive at received
  split at received
  · cases received
  · next held =>
    cases received
    exact held

end Channel

end Nanoserve.Lib
