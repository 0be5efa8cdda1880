import Nanoserve.Verified.Simulation

/-! # Requests, without their memory

What a client can observe of a request: where it stands, what it has produced and what has been
reported about it.
-/

namespace Nanoserve.Verified

open Engine Lib List Function Machine
open ContinuousBatchingEngine

variable {X V L S : Type} {cfg : Config X V L S}

structure Ledger where
  requests : Nat → Request
  submitted : List Nat
  waiting : List Nat
  active : List Nat
  outcomes : List Nat
  numFinished : Nat
  emitted : List (Nat × Nat)
  discarded : List (Nat × List Nat)

inductive LedgerStep (maxActive : Nat) : Ledger → Ledger → Prop
  | enqueue (ledger : Ledger) (request : Nat) :
    LedgerStep maxActive ledger
      { ledger with
        submitted := ledger.submitted ++ [request]
        waiting := ledger.waiting ++ [request] }
  | refuse (ledger : Ledger) (request : Nat) (reason : String) :
    LedgerStep maxActive ledger
      { ledger with
        requests := update ledger.requests request
          { (ledger.requests request).finish .rejected with rejectionReason := reason }
        submitted := ledger.submitted ++ [request]
        outcomes := ledger.outcomes ++ [request]
        numFinished := ledger.numFinished + 1 }
  | start (ledger : Ledger) (request : Nat) (waiting : List Nat) (queued : ledger.waiting = request :: waiting)
    (slot : ledger.active.length < maxActive) :
    LedgerStep maxActive ledger { ledger with waiting, active := ledger.active ++ [request] }
  | produce (ledger : Ledger) (request token : Nat) (standing : request ∈ ledger.active) :
    LedgerStep maxActive ledger
      { ledger with
        requests := update ledger.requests request ((ledger.requests request).recordToken token)
        emitted := ledger.emitted ++ [(request, token)] }
  | requeue (ledger : Ledger) (front : List Nat) (request : Nat) (back : List Nat)
    (standing : ledger.active = front ++ request :: back) :
    LedgerStep maxActive ledger
      { ledger with
        requests := update ledger.requests request { ledger.requests request with outputTokenIds := [] }
        waiting := request :: ledger.waiting
        active := front ++ back
        discarded := ledger.discarded ++ [(request, (ledger.requests request).outputTokenIds)] }
  | retire (ledger : Ledger) (front : List Nat) (request : Nat) (back : List Nat) (reason : FinishReason)
    (standing : ledger.active = front ++ request :: back) :
    LedgerStep maxActive ledger
      { ledger with
        requests := update ledger.requests request ((ledger.requests request).finish reason)
        active := front ++ back
        outcomes := ledger.outcomes ++ [request]
        numFinished := ledger.numFinished + 1 }
  | withdraw (ledger : Ledger) (front : List Nat) (request : Nat) (back : List Nat) (reason : FinishReason)
    (queued : ledger.waiting = front ++ request :: back) :
    LedgerStep maxActive ledger
      { ledger with
        requests := update ledger.requests request ((ledger.requests request).finish reason)
        waiting := front ++ back
        outcomes := ledger.outcomes ++ [request]
        numFinished := ledger.numFinished + 1 }

abbrev LedgerSteps (maxActive : Nat) : Ledger → Ledger → Prop := Relation.ReflTransGen (LedgerStep maxActive)

/-! ## The engine refines the ledger -/

def Machine.ledger (machine : Machine V S) : Ledger where
  requests := machine.engine.requests
  submitted := machine.session.submitted
  waiting := machine.engine.waiting
  active := machine.seqs.map Sequence.request
  outcomes := machine.session.outcomes
  numFinished := machine.engine.numFinished
  emitted := machine.session.drainedEmitted ++ machine.engine.emitted
  discarded := machine.discarded

theorem active_of_pending {m : Machine V S} {seq : Sequence} {token : Nat} {pending : List (Sequence × Nat)}
    (pendingEq : m.pending = (seq, token) :: pending) :
    m.ledger.active = m.engine.running.map Sequence.request ++
      seq.request :: (pending.map Prod.fst).map Sequence.request := by
  simp [ledger, seqs, pendingEq]

theorem pending_apart {m : Machine V S} {seq : Sequence} {token : Nat} {pending : List (Sequence × Nat)}
    (once : m.ledger.active.Nodup) (pendingEq : m.pending = (seq, token) :: pending) :
    (∀ other ∈ m.engine.running, other.request ≠ seq.request) ∧
      ∀ row ∈ pending, row.1.request ≠ seq.request := by
  rw [active_of_pending pendingEq] at once
  have absent := (nodup_cons.mp (nodup_middle.mp once)).1
  refine ⟨fun other mem => ?_, fun row mem => ?_⟩
  · exact ne_of_mem_of_not_mem (mem_append_left _ (mem_map_of_mem mem)) absent
  · exact ne_of_mem_of_not_mem (mem_append_right _ (mem_map_of_mem (mem_map_of_mem mem))) absent

theorem LedgerSteps.of_eq {maxActive : Nat} {before after : Ledger} (same : before = after) :
    LedgerSteps maxActive before after :=
  same ▸ .refl

theorem ledger_ended (m : Machine V S) (eng : EngineState V S) (req : Nat) (reason : FinishReason) :
    (m.withEngine (recordFinished cfg (finish eng req reason) req)).ledger =
      { (m.withEngine eng).ledger with
        requests := update eng.requests req ((eng.requests req).finish reason)
        outcomes := (m.withEngine eng).ledger.outcomes ++ [req]
        numFinished := eng.numFinished + 1 } := by
  simp [ledger, withEngine, seqs, Session.outcomes, recordFinished, finish]

theorem Transition.ledgerSteps {before after : Machine V S} (stock : Stock cfg before)
    (step : Transition cfg before after) : LedgerSteps cfg.maxBatchSize before.ledger after.ledger := by
  cases step with
  | submit added =>
    simp only [addRequest]
    split
    case h_1 reason _ =>
      have refused : LedgerStep cfg.maxBatchSize _ _ := .refuse before.ledger added reason
      refine .single ?_
      simpa [ledger, seqs, Session.outcomes, ContinuousBatchingEngine.reject, recordFinished, finish]
        using refused
    case h_2 => exact .single (.enqueue before.ledger added)
  | cancelRunning front seq back _ _ running =>
    have standing : before.ledger.active = front.map Sequence.request ++
        seq.request :: (back ++ before.pending.map Prod.fst).map Sequence.request := by
      simp [ledger, seqs, running]
    rw [ledger_ended]
    refine .single ?_
    simpa [ledger, withEngine, seqs, Session.outcomes] using
      LedgerStep.retire before.ledger _ _ _ .cancelled standing
  | cancelWaiting front req back waiting =>
    rw [ledger_ended]
    exact .single (.withdraw before.ledger front req back .cancelled waiting)
  | makeRoom _ _ _ made =>
    obtain ⟨pool, prefixCache, rfl⟩ := makeRoom_requests made
    exact .refl
  | reject req waiting _ queued =>
    rw [ledger_ended]
    exact .single (.withdraw before.ledger [] req waiting .rejected queued)
  | prefill req waiting _ _ _ _ _ idle queued slot =>
    have started := LedgerStep.start before.ledger req waiting queued
      (by simpa [ledger, seqs, idle] using slot)
    refine .single ?_
    simpa [ledger, withEngine, seqs, Session.outcomes, idle] using started
  | decode _ _ _ _ _ idle _ prepared ran =>
    obtain ⟨refilled, lengths⟩ := stock.decoded idle prepared ran
    refine LedgerSteps.of_eq ?_
    simp only [ledger, withEngine, seqs, Session.outcomes, idle, nil_append, map_nil,
      append_nil, map_fst_sampled lengths, refilled.request]
  | keep seq token _ pendingEq =>
    have standing : seq.request ∈ before.ledger.active := by simp [ledger, seqs, pendingEq]
    refine .single ?_
    simpa [ledger, withEngine, seqs, Session.outcomes, record, pendingEq] using
      LedgerStep.produce before.ledger seq.request token standing
  | fill seq token pending _ _ pendingEq =>
    have standing : before.ledger.active = before.engine.running.map Sequence.request ++
        seq.request :: (pending.map Prod.fst).map Sequence.request := by
      simp [ledger, seqs, pendingEq]
    -- The token is recorded first, then the request ends.
    have produced := @LedgerStep.produce cfg.maxBatchSize before.ledger seq.request token
      (by rw [standing]; simp)
    refine .tail (.single produced) ?_
    simpa [ledger, withEngine, seqs, Session.outcomes, record, recordFinished, finish] using
      LedgerStep.retire { before.ledger with
          requests := update before.engine.requests seq.request
            ((before.engine.requests seq.request).recordToken token)
          emitted := before.ledger.emitted ++ [(seq.request, token)] } _ _ _ .length standing
  | stop seq _ pending _ _ pendingEq =>
    have standing : before.ledger.active = before.engine.running.map Sequence.request ++
        seq.request :: (pending.map Prod.fst).map Sequence.request := by
      simp [ledger, seqs, pendingEq]
    refine .single ?_
    simpa [ledger, withEngine, seqs, Session.outcomes, recordFinished, finish] using
      LedgerStep.retire before.ledger _ _ _ .eos standing
  | preempt front victim _ _ idle running =>
    have standing : before.ledger.active = front.map Sequence.request ++ victim.request :: [] := by
      simp [ledger, seqs, running, idle]
    refine .single ?_
    simpa [ledger, withEngine, seqs, Session.outcomes, idle] using
      LedgerStep.requeue before.ledger _ _ _ standing
  | drainEmitted => exact LedgerSteps.of_eq (by simp [ledger, seqs, Session.outcomes])
  | drainFinished => exact LedgerSteps.of_eq (by simp [ledger, seqs, Session.outcomes])
  | _ => exact .refl

theorem Reaches.ledgerSteps {before after : Machine V S} (stock : Stock cfg before)
    (steps : Reaches cfg before after) : LedgerSteps cfg.maxBatchSize before.ledger after.ledger := by
  induction steps with
  | refl => exact .refl
  | tail steps step ih => exact ih.trans (step.ledgerSteps (stock.reaches steps))

end Nanoserve.Verified
