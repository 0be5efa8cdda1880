import Nanoserve.Router.Registry
import Nanoserve.Verified.Dispatch
import Nanoserve.Verified.Turns

/-! # A request that reaches a draining replica

A replica that drains answers a new call with one Finish message that says so.
-/

namespace Nanoserve.Verified

open Engine Lib Proto
open Model (BPETokenizer Text)
open Router (Proxy GenerateBody Visit Progress Ended ClientEvent Failure HealthChecker Ring attempt iteration
  stream reached prefixKey)

variable {X V L S : Type} {cfg : Config X V L S} {tok : BPETokenizer} {inc : Nat → Incoming}

def Unspoken (call : Nat) (replica : Replica V S) : Prop :=
  (replica.rpcs call).stage = .absent → (replica.rpcs call).yielded = []

theorem Unspoken.step {call : Nat} {replica next : Replica V S} {event : Event} (unspoken : Unspoken call replica)
    (went : replica.step cfg tok inc event = .ok next) : Unspoken call next := by
  intro absent
  have turn := step_turn went call
  generalize next.rpcs call = rpc at turn absent
  cases turn with
  | rests rests =>
    rw [rests.yielded]
    exact unspoken (rests.stage ▸ absent)
  | refused | follows | followed => simp [Rpc.yield] at absent
  | answered _ _ _ ended | opened _ _ _ ended | closed _ ended => simp [ended] at absent
  | looped streaming => exact absurd absent (loop_present streaming _)
  | left => simp at absent

theorem draining_step {replica next : Replica V S} {event : Event} (draining : replica.draining = true)
    (went : replica.step cfg tok inc event = .ok next) : next.draining = true := by
  cases step_shared went with
  | same books => exact books.draining.trans draining
  | joined _ _ _ kept | turnedAway _ _ _ kept | closed _ _ kept => exact kept.trans draining
  | drained _ drains => exact drains

structure SentAway (call : Nat) (replica : Replica V S) : Prop where
  draining : replica.draining = true
  answer : (replica.rpcs call).stage = .absent ∧ (replica.rpcs call).yielded = [] ∨
    (replica.rpcs call).stage = .ended ∧ (replica.rpcs call).yielded = [.finish drainingFinish]

theorem SentAway.step {call : Nat} {replica next : Replica V S} {event : Event} (away : SentAway call replica)
    (went : replica.step cfg tok inc event = .ok next) : SentAway call next := by
  refine ⟨draining_step away.draining went, ?_⟩
  have turn := step_turn went call
  have draining := away.draining
  generalize next.rpcs call = rpc at turn ⊢
  cases turn with
  | rests rests =>
    rw [rests.stage, rests.yielded]
    exact away.answer
  | refused =>
    rcases away.answer with ⟨-, nothing⟩ | ⟨ended, -⟩
    · exact .inr ⟨rfl, by rw [Rpc.yield, nothing]; rfl⟩
    · grind
  | follows _ serving | answered _ serving | opened _ serving => grind
  | looped stage | followed stage | closed stage =>
    rcases away.answer with ⟨other, -⟩ | ⟨other, -⟩ <;> rw [other] at stage <;> cases stage
  | left stage =>
    rcases away.answer with ⟨other, -⟩ | ⟨other, -⟩ <;> simp [other] at stage

theorem draining_answer {setup : Setup V S} {call : Nat} {early later : List Event} {middle last : Replica V S}
    (before : (Replica.new cfg tok inc setup).after cfg tok inc early = .ok middle)
    (draining : middle.draining = true) (absent : (middle.rpcs call).stage = .absent)
    (ran : (Replica.new cfg tok inc setup).after cfg tok inc (early ++ later) = .ok last) :
    (last.rpcs call).yielded = [] ∨ (last.rpcs call).yielded = [.finish drainingFinish] := by
  have unspoken : Unspoken call middle :=
    run_preserves (fun _ _ _ unspoken _ went => Unspoken.step unspoken went) (fun _ => rfl)
      (along_trivial (fun _ _ => trivial) early _) before
  rw [Replica.after, run_append_ok later before] at ran
  have away : SentAway call last :=
    run_preserves (fun _ _ _ away _ went => SentAway.step away went)
      ⟨draining, .inl ⟨absent, unspoken absent⟩⟩ (along_trivial (fun _ _ => trivial) later _) ran
  exact away.answer.imp And.right And.right

/-! ## The router -/

/-- The attempt gets through to a replica that drains before the call arrives, the answer reaches
the router. -/
structure ReachesDraining (cfg : Config X V L S) (tok : BPETokenizer) (proxy : Proxy) (body : GenerateBody) (now : Rat)
    (progress : Progress) (visit : Visit V S) (replica : String) : Prop where
  picked : (visit.ring.pickExcluding (prefixKey body.prompt proxy.prefixLen) progress.tried).map
    (fun picked => picked.1.id) = some replica
  connected : visit.connected = true
  accepted : visit.refused = none
  draining : ∃ early later middle, visit.events = early ++ later ∧
    (Replica.new cfg tok (visit.incoming (body.request now progress.delivered)) visit.setup).after cfg tok
      (visit.incoming (body.request now progress.delivered)) early = .ok middle ∧
    middle.draining = true ∧ (middle.rpcs visit.call).stage = .absent
  answered : visit.chunks cfg tok (body.request now progress.delivered) ≠ []
  retries : progress.attempt < proxy.maxRetries
  another : ∃ other ∈ visit.ring.readyReplicas, other.id ∉ progress.tried ∧ other.id ≠ replica

section Router

variable {proxy : Proxy} {body : GenerateBody} {now : Rat} {prog : Progress} {visit : Visit V S} {replica : String}

section

variable (reaches : ReachesDraining cfg tok proxy body now prog visit replica)
include reaches

theorem ReachesDraining.chunks :
    visit.chunks cfg tok (body.request now prog.delivered) = [.finish drainingFinish] := by
  obtain ⟨early, later, middle, events, before, draining, absent⟩ := reaches.draining
  have answered := reaches.answered
  simp only [Visit.chunks] at answered ⊢
  cases ran : visit.replica cfg tok (body.request now prog.delivered) with
  | error => simp [ran] at answered
  | ok =>
    simp only [ran] at answered ⊢
    have whole := ran
    rw [Visit.replica, events] at whole
    rcases draining_answer before draining absent whole with nothing | answer
    · simp [nothing] at answered
    · rw [answer] at answered ⊢
      -- Something arrived, so the one message did.
      cases count : visit.received with
      | zero => simp [count] at answered
      | succ => simp

theorem ReachesDraining.attempt_eq
    (name : String) : attempt cfg tok body now name prog.delivered visit =
      ⟨[], [], some (.rejected "replica is draining")⟩ := by
  simp only [attempt, reaches.connected, reaches.accepted, reaches.chunks]
  rfl

theorem ReachesDraining.iteration_eq :
    ∃ ended, iteration cfg tok proxy body now prog visit = .error ended ∧ ended.err = none ∧
      ended.progress.tried = prog.tried ++ [replica] ∧
      (visit.clientGone = false →
        ended.progress.written = prog.written ++ [.rejected "rejected: replica is draining".toList]) := by
  obtain ⟨choice, found, rfl⟩ := Option.map_eq_some_iff.mp reaches.picked
  simp only [iteration, found, reaches.attempt_eq, Router.settle]
  split
  case isTrue gone =>
    refine ⟨_, rfl, rfl, rfl, fun here => ?_⟩
    rw [here] at gone
    cases gone
  case isFalse =>
    rw [if_pos (isRejection_rejected _)]
    refine ⟨_, rfl, rfl, rfl, fun _ => ?_⟩
    have text : (Failure.rejected "replica is draining").text = "rejected: replica is draining".toList := by decide
    simp only [Progress.dispatch, List.append_nil, text]

end

end Router

/-- Wherever in its loop `stream` reaches a draining replica, it goes to no other replica, whatever
attempts it would still have. -/
theorem draining_ends_request (cfg : Config X V L S) (tok : BPETokenizer) (proxy : Proxy) (body : GenerateBody)
    (now : Rat) (before after : List (Visit V S)) (visit : Visit V S) (progress : Progress) (replica : String)
    (ran : stream cfg tok proxy body now before = .ok progress)
    (reaches : ReachesDraining cfg tok proxy body now progress visit replica) :
    visit.chunks cfg tok (body.request now progress.delivered) = [.finish drainingFinish] ∧
      ∃ ended, stream cfg tok proxy body now (before ++ visit :: after) = .error ended ∧ ended.err = none ∧
        ended.progress.tried = progress.tried ++ [replica] ∧
        (visit.clientGone = false →
          ended.progress.written = progress.written ++ [.rejected "rejected: replica is draining".toList]) := by
  obtain ⟨ended, stopped, facts⟩ := reaches.iteration_eq
  refine ⟨reaches.chunks, ended, ?_, facts⟩
  rw [stream, run_append_ok (visit :: after) ran]
  simp only [run, stopped]

/-- Replica `a` has failed one health check since it began to drain. -/
def watched : HealthChecker :=
  let checker : HealthChecker := { ring := ((Ring.new 1 (.finite (1 / 4))).add "a" "host:1").add "b" "host:2" }
  ((checker.checkOne "a" true).checkOne "b" true).checkOne "a" false

/-- The replica drains, then our call arrives. -/
def shuttingDown : Visit Nat Unit := { serving 1 with ring := watched.ring, events := [.drain, .arrive 0 false] }

theorem shuttingDown_reaches :
    ReachesDraining counting spelling {} (asking ['A'] 3) 0 {} shuttingDown "a" where
  picked := by decide +kernel
  connected := rfl
  accepted := rfl
  draining := ⟨[.drain], [.arrive 0 false], _, rfl, rfl, rfl, rfl⟩
  answered := by decide +kernel
  retries := by decide
  another := ⟨{ id := "b", addr := "host:2", ready := true }, by decide +kernel, by decide, by decide⟩

theorem draining_ends_request_shuttingDown :
    stream counting spelling {} (asking ['A'] 3) 0 ([] : List (Visit Nat Unit)) = .ok {} ∧
      ReachesDraining counting spelling {} (asking ['A'] 3) 0 {} shuttingDown "a" ∧
      shuttingDown.chunks counting spelling ((asking ['A'] 3).request 0 []) = [.finish drainingFinish] ∧
      ∃ ended, stream counting spelling {} (asking ['A'] 3) 0 [shuttingDown, serving 5] = .error ended ∧
        ended.err = none ∧ ended.progress.tried = ["a"] ∧
        (shuttingDown.clientGone = false →
          ended.progress.written = [.rejected "rejected: replica is draining".toList]) :=
  ⟨rfl, shuttingDown_reaches,
    draining_ends_request counting spelling {} (asking ['A'] 3) 0 [] [serving 5] shuttingDown {} "a" rfl
      shuttingDown_reaches⟩

/-- Replica `b` is ready and untried, two retries are left. -/
theorem rejected_while_another_is_ready :
    (∃ other ∈ shuttingDown.ring.readyReplicas, other.id = "b") ∧
      (stream counting spelling {} (asking ['A'] 3) 0 [shuttingDown, serving 5]).isOk = false ∧
      (reached (stream counting spelling {} (asking ['A'] 3) 0 [shuttingDown, serving 5])).tried = ["a"] ∧
      (reached (stream counting spelling {} (asking ['A'] 3) 0 [shuttingDown, serving 5])).attempt <
        ({} : Proxy).maxRetries ∧
      (reached (stream counting spelling {} (asking ['A'] 3) 0 [shuttingDown, serving 5])).written =
        [.rejected "rejected: replica is draining".toList] := by
  decide +kernel

end Nanoserve.Verified
