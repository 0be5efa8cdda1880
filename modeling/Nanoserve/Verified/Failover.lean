import Nanoserve.Verified.Dispatch
import Nanoserve.Verified.Ring

/-! # Failover

A pick passes over whom the request has tried and fails only if nobody else is ready.
-/

namespace Nanoserve.Verified

open Lib Router Engine List
open Model (BPETokenizer)

variable {X V L S : Type} {cfg : Config X V L S} {tok : BPETokenizer} {proxy : Proxy} {body : GenerateBody} {now : Rat}

theorem settle_tried (prog : Progress) (result : Attempt) (clientGone : Bool) :
    (reached (settle proxy prog result clientGone)).tried = prog.tried ∧
      ∀ next, settle proxy prog result clientGone = .ok next →
        next.attempt = prog.attempt + 1 ∧ next.attempt ≤ proxy.maxRetries := by
  simp only [settle]
  cases result.failure with
  | none => exact ⟨rfl, by intro _ continued; cases continued⟩
  | some failure =>
    cases clientGone with
    | true => exact ⟨rfl, by intro _ continued; cases continued⟩
    | false =>
      by_cases rejection : failure.isRejection = true
      · simp only [rejection, Bool.false_eq_true, if_false, if_true]
        exact ⟨rfl, by intro _ continued; cases continued⟩
      · by_cases again : prog.attempt + 1 ≤ proxy.maxRetries
        · simp only [rejection, again, Bool.false_eq_true, if_false, if_true]
          refine ⟨rfl, ?_⟩
          intro next continued
          cases continued
          exact ⟨rfl, again⟩
        · simp only [rejection, again, Bool.false_eq_true, if_false]
          exact ⟨rfl, by intro _ continued; cases continued⟩

theorem iteration_tried (prog : Progress) (visit : Visit V S) :
    (visit.ring.pickExcluding (prefixKey body.prompt proxy.prefixLen) prog.tried = none ∧
        iteration cfg tok proxy body now prog visit =
          .error ⟨prog, some (.failed (prog.lastErr.getD .noReplicas))⟩) ∨
      ∃ rep next, visit.ring.pickExcluding (prefixKey body.prompt proxy.prefixLen) prog.tried =
          some (rep, next) ∧
        (reached (iteration cfg tok proxy body now prog visit)).tried = prog.tried ++ [rep.id] ∧
        ∀ further, iteration cfg tok proxy body now prog visit = .ok further →
          further.attempt = prog.attempt + 1 ∧ further.attempt ≤ proxy.maxRetries := by
  simp only [iteration]
  cases visit.ring.pickExcluding (prefixKey body.prompt proxy.prefixLen) prog.tried with
  | none => exact .inl ⟨rfl, rfl⟩
  | some picked => exact .inr ⟨picked.1, picked.2, rfl, settle_tried ..⟩

/-! ## Whole runs -/

structure EachOnce (proxy : Proxy) (progress : Progress) : Prop where
  nodup : progress.tried.Nodup
  count : progress.tried.length = progress.attempt
  within : progress.attempt ≤ proxy.maxRetries

theorem EachOnce.iteration {prog : Progress} (eachOnce : EachOnce proxy prog) {visit : Visit V S}
    (shaped : Shaped visit.ring) :
    let next := reached (iteration cfg tok proxy body now prog visit)
    next.tried.Nodup ∧ next.tried.length ≤ proxy.maxRetries + 1 ∧
      ∀ further, Router.iteration cfg tok proxy body now prog visit = .ok further → EachOnce proxy further := by
  obtain ⟨nodup, count, _⟩ := eachOnce
  cases iteration_tried prog visit with
  | inl failed =>
    rw [failed.2]
    refine ⟨nodup, ?_, by intro _ continued; cases continued⟩
    show prog.tried.length ≤ proxy.maxRetries + 1
    omega
  | inr dispatched =>
    obtain ⟨taken, _, picked, tried, goesOn⟩ := dispatched
    obtain ⟨_, -, -, untried⟩ := pick_ready shaped picked
    have fresh : (prog.tried ++ [taken.id]).Nodup := concat_eq_append ▸ nodup.concat untried
    have length : (prog.tried ++ [taken.id]).length = prog.attempt + 1 := by
      rw [length_append, length_singleton, count]
    simp only [tried, length]
    refine ⟨fresh, by omega, ?_⟩
    intro further continued
    obtain ⟨attempts, further_within⟩ := goesOn further continued
    rw [continued] at tried
    have tried : further.tried = prog.tried ++ [taken.id] := tried
    exact ⟨by rw [tried]; exact fresh, by rw [tried, length, attempts], further_within⟩

section Streams

variable (cfg tok proxy body now)

theorem stream_eachOnce {visits : List (Visit V S)} (shaped : ∀ visit ∈ visits, Shaped visit.ring) :
    let prog := reached (stream cfg tok proxy body now visits)
    prog.tried.Nodup ∧ prog.tried.length ≤ proxy.maxRetries + 1 := by
  have outcome := @run_outcome _ _ _ (iteration cfg tok proxy body now) (EachOnce proxy)
    (fun ended => ended.progress.tried.Nodup ∧ ended.progress.tried.length ≤ proxy.maxRetries + 1)
    (fun _ visit => Shaped visit.ring) ?_ ?_ visits {} ⟨nodup_nil, rfl, Nat.zero_le _⟩ (along_of_forall shaped _)
  · simp only [stream]
    split at outcome
    case h_1 last ran =>
      obtain ⟨nodup, _, _⟩ := outcome
      rw [ran]
      refine ⟨nodup, ?_⟩
      show last.tried.length ≤ proxy.maxRetries + 1
      omega
    case h_2 ended ran =>
      rw [ran]
      exact outcome
  · intro prog visit next eachOnce ring continued
    exact (eachOnce.iteration ring).2.2 next continued
  · intro prog visit ended eachOnce ring returned
    obtain ⟨nodup, most, -⟩ := @EachOnce.iteration X V L S cfg tok proxy body now prog eachOnce visit ring
    rw [returned] at nodup most
    exact ⟨nodup, most⟩

end Streams

/-- A pick of a ring in any state it can get into returns a replica exactly if a ready one is not
excluded, returns such a one, and otherwise leaves the ring as it is. So `stream` tries different
replicas, at most one more than it may retry, and when a pick of it fails it has tried all that are
ready then. -/
theorem failover_complete (virtualNodes : Nat) (epsilon : Epsilon) :
    (∀ calls key exclude,
      let ring := (Ring.new virtualNodes epsilon).after calls
      ((∃ result, ring.pickExcluding key exclude = some result) ↔
          ∃ id replica, ring.replicas.get? id = some replica ∧ replica.ready = true ∧ id ∉ exclude) ∧
        (∀ taken next, ring.pickExcluding key exclude = some (taken, next) →
          ∃ replica, ring.replicas.get? taken.id = some replica ∧ replica.ready = true ∧ taken.id ∉ exclude) ∧
        (ring.pickExcluding key exclude = none → ring.call (.pick key exclude) = ring)) ∧
    ∀ (X V L S : Type) (cfg : Config X V L S) (tok : BPETokenizer) (proxy : Proxy) (body : GenerateBody) (now : Rat)
      (visits : List (Visit V S)),
      (∀ visit ∈ visits, ∃ calls, visit.ring = (Ring.new virtualNodes epsilon).after calls) →
        let progress := reached (stream cfg tok proxy body now visits)
        progress.tried.Nodup ∧ progress.tried.length ≤ proxy.maxRetries + 1 ∧
          ∀ before visit after ongoing, visits = before ++ visit :: after →
            stream cfg tok proxy body now before = .ok ongoing →
            visit.ring.pickExcluding (prefixKey body.prompt proxy.prefixLen) ongoing.tried = none →
              ∀ id replica, visit.ring.replicas.get? id = some replica → replica.ready = true → id ∈ ongoing.tried := by
  have reachable (calls : List RingCall) : Shaped ((Ring.new virtualNodes epsilon).after calls) :=
    (Shaped.new virtualNodes epsilon).after calls
  constructor
  · intro calls key exclude ring
    have shaped : Shaped ring := reachable calls
    refine ⟨exists_pick_iff shaped key exclude, fun taken next => pick_ready shaped, ?_⟩
    intro failed
    simp only [Ring.call, failed, Option.map_none, Option.getD_none]
  · intro X V L S cfg tok proxy body now visits rings
    have shaped : ∀ visit ∈ visits, Shaped visit.ring := by
      intro visit member
      obtain ⟨calls, same⟩ := rings visit member
      rw [same]
      exact reachable calls
    obtain ⟨nodup, most⟩ := stream_eachOnce cfg tok proxy body now shaped
    refine ⟨nodup, most, ?_⟩
    intro before visit after ongoing split streaming failed id replica present ready
    have ring : Shaped visit.ring := shaped visit (by grind)
    -- Were it not tried, the pick would have found somebody.
    by_contra untried
    obtain ⟨result, picked⟩ := (exists_pick_iff ring (prefixKey body.prompt proxy.prefixLen) ongoing.tried).mpr
      ⟨id, replica, present, ready, untried⟩
    rw [failed] at picked
    cases picked

/-- Two replicas, both of which break off: the third pick finds nobody. -/
theorem failover_complete_pair :
    let visits := [serving 1, serving 1, serving 1]
    let progress := reached (stream counting spelling {} (asking ['A'] 3) 0 visits)
    progress.tried.Nodup ∧ progress.tried.length = 2 ∧
      pair.pickExcluding (prefixKey (asking ['A'] 3).prompt 128) progress.tried = none := by
  have reachable : pair = (Ring.new 1 (.finite (1 / 4))).after
      [.add "a" "host:1", .add "b" "host:2", .setReady "a" true, .setReady "b" true] := rfl
  refine ⟨?_, by decide +kernel, by decide +kernel⟩
  refine ((failover_complete 1 (.finite (1 / 4))).2 _ _ _ _ counting spelling {} (asking ['A'] 3) 0
    [serving 1, serving 1, serving 1] ?_).1
  intro visit member
  have same : visit = serving 1 := by simpa using member
  rw [same]
  exact ⟨_, reachable⟩

end Nanoserve.Verified
