import Nanoserve.Lib.Runs
import Nanoserve.Engine.Discovery

/-! # Deregistration

`stop()` revokes the lease that is recorded when it asks.
-/

namespace Nanoserve.Verified

open Lib Engine List

variable {event : RegistrationEvent} {reg next : Registration}

/-- Once `stop()` has returned after a successful revoke, the key is gone. -/
def StaysGone (reg : Registration) : Prop := reg.stopper = .returned true → reg.entry = none

/-- The lease `stop()` is about to revoke. -/
def revoking? : StopPhase → Option Nat
  | .revoking lease => some lease
  | .running | .joining | .returned _ => none

/-- When the revoke is carried out, the thread is not announcing, the key is attached to the lease,
and no other lease that is alive has a put under way. -/
def Calm (reg : Registration) : RegistrationEvent → Prop
  | .revoke .answered => reg.thread.stage? = none ∧ ∀ lease ∈ revoking? reg.stopper,
      (∀ entry ∈ reg.entry, entry.lease = lease) ∧ ∀ put ∈ reg.inFlight, put.lease = lease ∨ put.lease ∉ reg.leases
  | _ => True

instance decidableCalm (reg : Registration) : (event : RegistrationEvent) → Decidable (Calm reg event)
  | .revoke .answered => inferInstanceAs (Decidable (reg.thread.stage? = none ∧ ∀ lease ∈ revoking? reg.stopper,
      (∀ entry ∈ reg.entry, entry.lease = lease) ∧ ∀ put ∈ reg.inFlight, put.lease = lease ∨ put.lease ∉ reg.leases))
  | .revoke .failed | .revoke .lost | .grant _ | .sendPut | .applyPut _ | .losePut _ | .putAnswered | .putFailed | .record
  | .tick | .renewed _ | .retry | .wake | .expire _ | .stop | .joined => .isTrue trivial

structure Departed (reg : Registration) : Prop where
  flagged : reg.stopSet = true
  quiet : reg.thread.stage? = none
  gone : reg.entry = none
  refused : ∀ put ∈ reg.inFlight, put.lease ∉ reg.leases

namespace Departed

section

variable (departed : Departed reg)
include departed

theorem withThread {thread : RenewalPhase} (quiet : thread.stage? = none) :
    Departed { reg with thread } :=
  ⟨departed.flagged, quiet, departed.gone, departed.refused⟩

theorem fewer (index : Nat) :
    Departed { reg with inFlight := reg.inFlight.eraseIdx index } :=
  ⟨departed.flagged, departed.quiet, departed.gone,
    fun put mem => departed.refused put (mem_of_mem_eraseIdx mem)⟩

theorem endLease (lease : Nat) : Departed (reg.endLease lease) := by
  refine ⟨departed.flagged, departed.quiet, ?_, ?_⟩
  · rw [Registration.endLease, departed.gone, Option.filter_none]
  · intro put mem isAlive
    exact departed.refused put mem (mem_of_mem_filter isAlive)

theorem applyPut {index : Nat} {put : KeyEntry} (found : reg.inFlight[index]? = some put) :
    Departed (reg.applyPut index put) := by
  have refused := departed.refused put (mem_of_getElem? found)
  rw [Registration.applyPut, if_neg refused]
  exact departed.fewer index

theorem step (returned : reg.stopper = .returned true) (went : reg.step event = .ok next) :
    Departed next := by
  cases event with
  -- The thread is not in `_announce`, and the caller of `stop()` is gone.
  | grant _ | sendPut | putAnswered | putFailed | record =>
    simp only [Registration.step, departed.quiet] at went
    cases went
  | stop | joined | revoke _ =>
    simp only [Registration.step, returned] at went
    cases went
  -- With the flag set every other path of the loop leads out of it.
  | tick | wake | retry =>
    simp only [Registration.step] at went
    split at went
    case h_1 =>
      cases went
      apply departed.withThread
      rw [if_pos departed.flagged]
      rfl
    case h_2 => cases went
  | renewed =>
    simp only [Registration.step] at went
    split at went
    case h_1 =>
      cases went
      apply departed.withThread
      split
      · rfl
      · rfl
    case h_2 => cases went
  | expire lease =>
    cases went
    exact departed.endLease lease
  | applyPut =>
    simp only [Registration.step] at went
    split at went
    case h_1 _ found =>
      cases went
      exact departed.applyPut found
    case h_2 => cases went
  | losePut index =>
    simp only [Registration.step] at went
    split at went
    · cases went
      exact departed.fewer index
    · cases went

end

end Departed

/-! ## Runs -/

structure Stopping (reg : Registration) : Prop where
  flagged : reg.stopper = .running ∨ reg.stopSet = true
  departed : reg.stopper = .returned true → Departed reg

def isStop : RegistrationEvent → Bool
  | .stop | .joined | .revoke _ => true
  | _ => false

theorem stopper_step (other : isStop event = false) (went : reg.step event = .ok next) :
    next.stopper = reg.stopper ∧ next.stopSet = reg.stopSet := by
  cases event with
  | stop | joined | revoke _ => cases other
  | sendPut | putAnswered | putFailed | record | tick | renewed _ | retry | wake | losePut _ =>
    simp only [Registration.step] at went
    split at went
    · cases went
      exact ⟨rfl, rfl⟩
    · cases went
  | grant reply =>
    simp only [Registration.step] at went
    split at went
    · cases reply with
      | answered | failed | lost =>
        cases went
        exact ⟨rfl, rfl⟩
    · cases went
  | applyPut =>
    simp only [Registration.step] at went
    split at went
    · cases went
      simp only [Registration.applyPut]
      split
      · exact ⟨rfl, rfl⟩
      · exact ⟨rfl, rfl⟩
    · cases went
  | expire =>
    cases went
    exact ⟨rfl, rfl⟩

theorem departed_of_revoke {lease : Nat} (flagged : reg.stopSet = true) (revoking : reg.stopper = .revoking lease)
    (calm : Calm reg (.revoke .answered)) :
    Departed { reg.endLease lease with lease := none, stopper := .returned true } := by
  obtain ⟨quiet, others⟩ := calm
  obtain ⟨attached, ended⟩ := others lease (by rw [revoking]; rfl)
  refine ⟨flagged, quiet, ?_, ?_⟩
  · simp only [Registration.endLease, Option.filter_eq_none_iff]
    intro entry present
    simpa using attached entry present
  · intro put mem isAlive
    obtain ⟨alive, different⟩ := mem_filter.mp isAlive
    cases ended put mem with
    | inl same => simp [same] at different
    | inr dead => exact dead alive

namespace Stopping

theorem stop (went : reg.step .stop = .ok next) : Stopping next := by
  simp only [Registration.step] at went
  split at went
  case h_1 =>
    split at went
    · cases went
      refine ⟨.inr rfl, ?_⟩
      intro joining
      cases joining
    · cases went
  case h_2 => cases went

theorem joined (stopping : Stopping reg) (went : reg.step .joined = .ok next) : Stopping next := by
  simp only [Registration.step] at went
  split at went
  case h_1 =>
    cases went
    refine ⟨.inr (stopping.flagged.resolve_left (by grind)), ?_⟩
    intro returned
    -- With a lease there is something to revoke first, and without one nothing is revoked.
    cases recorded : reg.lease with
    | none => simp [recorded] at returned
    | some => simp [recorded] at returned
  case h_2 => cases went

theorem revoke (stopping : Stopping reg) {reply : Reply} (calm : Calm reg (.revoke reply))
    (went : reg.step (.revoke reply) = .ok next) : Stopping next := by
  simp only [Registration.step] at went
  split at went
  case h_1 _ revoking =>
    have flagged : reg.stopSet = true := stopping.flagged.resolve_left (by grind)
    cases reply with
    | answered =>
      simp only at went
      split at went
      · cases went
        exact ⟨.inr flagged, fun _ => departed_of_revoke flagged revoking calm⟩
      · cases went
    | failed | lost =>
      cases went
      refine ⟨.inr flagged, ?_⟩
      intro returned
      cases returned
  case h_2 => cases went

theorem step (stopping : Stopping reg) (calm : Calm reg event) (went : reg.step event = .ok next) :
    Stopping next := by
  by_cases returned : reg.stopper = .returned true
  · have departed := (stopping.departed returned).step returned went
    exact ⟨.inr departed.flagged, fun _ => departed⟩
  · cases isOther : isStop event with
    | false =>
      obtain ⟨sameStopper, sameFlag⟩ := stopper_step isOther went
      constructor
      · rw [sameStopper, sameFlag]
        exact stopping.flagged
      · grind
    | true =>
      cases event with
      | stop => exact stop went
      | joined => exact stopping.joined went
      | revoke => exact stopping.revoke calm went
      | grant | sendPut | applyPut | losePut | putAnswered | putFailed | record | tick | renewed | retry | wake | expire =>
        cases isOther

end Stopping

/-- Whenever the revoke finds the thread outside `_announce` and the key, with every put that may
still land, under its own lease, the key stays gone. -/
theorem deregistration_is_final (addr : String) (events : List RegistrationEvent) (reg : Registration)
    (ran : run Registration.step { addr } events = .ok reg) (calm : Along Registration.step Calm { addr } events) :
    StaysGone reg := by
  have initially : Stopping { addr } := by
    refine ⟨.inl rfl, ?_⟩
    intro returned
    cases returned
  have stopping : Stopping reg :=
    run_preserves (fun _ _ _ held isCalm stepped => Stopping.step held isCalm stepped) initially calm ran
  intro returned
  exact (stopping.departed returned).gone

def starts : List RegistrationEvent := [.grant .answered, .sendPut, .applyPut 0, .putAnswered, .record]

/-- A keepalive fails, and the thread is in `_announce` again. -/
def reannounces : List RegistrationEvent := [.tick, .renewed false, .retry, .grant .answered]

/-- The thread comes back under a new lease before `stop()` is called. -/
def orderlyStop : List RegistrationEvent :=
  starts ++ reannounces ++ [.sendPut, .applyPut 0, .putAnswered, .record, .stop, .tick, .joined, .revoke .answered]

theorem deregistration_is_final_when_orderly :
    Yields (run Registration.step { addr := "host:1" } orderlyStop) fun reg =>
      reg.stopper = .returned true ∧ StaysGone reg := by
  have stopped : Yields (run Registration.step { addr := "host:1" } orderlyStop) fun reg =>
      reg.stopper = .returned true := by decide +kernel
  obtain ⟨reg, ran, returned⟩ := stopped
  exact ⟨reg, ran, returned, deregistration_is_final "host:1" orderlyStop reg ran (by decide +kernel)⟩

/-- The join gives up on a thread that is between grant and put. -/
theorem key_outlives_stop :
    Yields (run Registration.step { addr := "host:1" }
        (starts ++ reannounces ++ [.stop, .joined, .revoke .answered, .sendPut, .applyPut 0])) (fun reg =>
      reg.stopper = .returned true ∧ reg.entry = some ⟨"host:1", 1⟩) ∧
    Yields (run Registration.step { addr := "host:1" }
        (starts ++ reannounces ++ [.sendPut, .applyPut 0, .putFailed, .stop, .wake, .joined, .revoke .answered])) fun reg =>
      reg.stopper = .returned true ∧ reg.thread = .exited ∧ reg.entry = some ⟨"host:1", 1⟩ := by
  decide +kernel

end Nanoserve.Verified
