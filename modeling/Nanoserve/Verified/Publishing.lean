import Nanoserve.Lib.Runs
import Nanoserve.Router.Etcd

/-! # Publishing a snapshot

`send` looks whether there is room, and if there is none takes a stale snapshot out.
-/

namespace Nanoserve.Verified

open Lib Router List

variable {α : Type}
variable {publisher next : Publisher α}

/-- Inside `send` the producer has a step to take. -/
structure Live (publisher : Publisher α) : Prop where
  moves : ∀ eps, publisher.phase = .trying eps ∨ publisher.phase = .discarding eps →
    ∃ next, publisher.step .advance = .ok next
  newest : ∀ eps, publisher.phase = .returned eps → publisher.channel.queue.getLast? = some eps ∨
    publisher.channel.queue = [] ∧ publisher.received.getLast? = some eps

/-- The consumer does not empty the channel between the two selects. -/
def LeavesOne (publisher : Publisher α) : PublisherEvent α → Prop
  | .receive => ∀ eps, publisher.phase = .discarding eps → publisher.channel.queue.length ≠ 1
  | _ => True

theorem live_trying {eps : α} (phase : publisher.phase = .trying eps) : Live publisher := by
  constructor
  · intro _ _
    cases sent : publisher.channel.trySend eps with
    | some => exact ⟨_, by simp only [Publisher.step, Publisher.advance, phase, sent]; rfl⟩
    | none => exact ⟨_, by simp only [Publisher.step, Publisher.advance, phase, sent]; rfl⟩
  · intro other returned
    rw [phase] at returned
    cases returned

theorem live_discarding {eps : α} (phase : publisher.phase = .discarding eps) :
    Live publisher ↔ publisher.channel.queue ≠ [] := by
  constructor
  · intro live empty
    obtain ⟨_, went⟩ := live.moves eps (.inr phase)
    have nothing := Channel.tryReceive_eq_none.mpr empty
    simp [Publisher.step, Publisher.advance, phase, nothing] at went
  · intro held
    constructor
    · intro _ _
      cases taken : publisher.channel.tryReceive with
      | none => exact absurd (Channel.tryReceive_eq_none.mp taken) held
      | some => exact ⟨_, by simp only [Publisher.step, Publisher.advance, phase, taken]; rfl⟩
    · intro other returned
      rw [phase] at returned
      cases returned

theorem live_advance (went : publisher.step .advance = .ok next) : Live next := by
  simp only [Publisher.step, Publisher.advance] at went
  cases phase : publisher.phase with
  | outside | returned _ => simp [phase] at went
  | trying eps =>
    cases sent : publisher.channel.trySend eps with
    | some =>
      simp only [phase, sent, Except.ok.injEq] at went
      subst went
      constructor
      · intro other inside
        cases inside <;> contradiction
      · intro other returned
        cases returned
        left
        rw [Channel.trySend_queue sent, getLast?_concat]
    | none =>
      simp only [phase, sent, Except.ok.injEq] at went
      subst went
      -- There was no room, so there is something to discard, for now.
      exact (live_discarding rfl).mpr (Channel.ne_nil_of_full sent)
  | discarding =>
    cases taken : publisher.channel.tryReceive with
    | none => simp [phase, taken] at went
    | some =>
      simp only [phase, taken, Except.ok.injEq] at went
      subst went
      exact live_trying rfl

theorem live_receive (live : Live publisher) (went : publisher.step .receive = .ok next) :
    Live next ↔ LeavesOne publisher .receive := by
  simp only [Publisher.step] at went
  cases taken : publisher.channel.tryReceive with
  | none => simp [taken] at went
  | some result =>
    obtain ⟨_, channel⟩ := result
    simp only [taken, Except.ok.injEq] at went
    subst went
    have queue := Channel.tryReceive_queue taken
    simp only [LeavesOne]
    cases phase : publisher.phase with
    | outside => exact iff_of_true ⟨by simp, by simp⟩ (by simp)
    | trying => exact iff_of_true (live_trying rfl) (by simp)
    | returned eps =>
      refine iff_of_true ⟨by simp, ?_⟩ (by simp)
      intro other returned
      cases returned
      cases live.newest eps phase with
      | inr received =>
        rw [queue] at received
        cases received.1
      | inl last =>
        rw [queue] at last
        cases rest : channel.queue with
        | nil =>
          rw [rest] at last
          exact .inr ⟨rfl, by rw [getLast?_concat]; exact last⟩
        | cons =>
          rw [rest, getLast?_cons_cons] at last
          exact .inl last
    | discarding eps =>
      rw [live_discarding rfl]
      constructor
      · intro held _ _ alone
        rw [queue, length_cons] at alone
        exact held (eq_nil_of_length_eq_zero (Nat.succ.inj alone))
      · intro leaves empty
        refine leaves eps rfl ?_
        rw [queue, empty]
        rfl

theorem live_step {event : PublisherEvent α} (live : Live publisher) (went : publisher.step event = .ok next) :
    Live next ↔ LeavesOne publisher event := by
  cases event with
  | advance => exact iff_of_true (live_advance went) trivial
  | receive => exact live_receive live went
  | call =>
    simp only [Publisher.step] at went
    split at went
    · cases went
      exact iff_of_true (live_trying rfl) trivial
    · cases went
      exact iff_of_true (live_trying rfl) trivial
    · cases went

/-- The producer never waits, and what it has sent is the newest there is, exactly as long as the
consumer does not empty the channel between the two selects. -/
theorem send_live_iff_leaves_one (channel : Channel α) (events : List (PublisherEvent α)) :
    Throughout Publisher.step Live { channel } events ↔ Along Publisher.step LeavesOne { channel } events := by
  have initially : Live ({ channel } : Publisher α) := ⟨by simp, by simp⟩
  refine @along_iff_throughout _ _ _ _ (fun _ => True) _ _ (fun _ _ _ _ _ => trivial)
    (fun _ _ _ _ live stepped => live_step live stepped) ?_ _ _ trivial initially
  intro publisher event raised _ failed
  cases event with
  | call => trivial
  | advance => trivial
  | receive =>
    simp only [Publisher.step] at failed
    intro eps phase alone
    cases taken : publisher.channel.tryReceive with
    | some => simp [taken] at failed
    | none =>
      rw [Channel.tryReceive_eq_none.mp taken] at alone
      cases alone

/-- The channel of `Watch`, full of stale snapshots. -/
theorem producer_waits_for_itself :
    Yields (run Publisher.step ({ channel := ⟨8, by decide, List.range 8, by decide⟩ } : Publisher Nat)
        ([.call 8, .advance] ++ List.replicate 8 .receive)) fun publisher =>
      publisher.phase = .discarding 8 ∧ publisher.channel.queue = [] ∧
        ∀ next, publisher.step .advance ≠ .ok next := by
  refine ⟨_, rfl, rfl, rfl, ?_⟩
  intro next stepped
  cases stepped

end Nanoserve.Verified
