import Nanoserve.Engine.Server
import Nanoserve.Verified.Lifecycle
import Nanoserve.Verified.Passes

/-! # The thread behind the event loop

The thread works on an engine whose own lists are the entries it has not appended yet.
-/

namespace Nanoserve.Verified

open Engine Lib List Function
open ContinuousBatchingEngine
open AsyncEngine (setStream signal view)

variable {X V L S : Type} {cfg : Config X V L S}
variable {eng : EngineState V S} {req : Nat} {srv : AsyncEngine V S}

theorem cancelRunning_frame {seqs : List Sequence} {next : EngineState V S}
    (result : cancelRunning cfg eng seqs = .ok next) :
    next.cancelRequested = eng.cancelRequested ∧
      ∀ other, other ∉ seqs.map Sequence.request → next.requests other = eng.requests other := by
  induction seqs generalizing eng with
  | nil =>
    simp only [cancelRunning, Except.ok.injEq] at result
    subst result
    exact ⟨rfl, fun _ _ => rfl⟩
  | cons _ _ ih =>
    simp only [cancelRunning] at result
    split at result
    · cases result
    · obtain ⟨asked, others⟩ := ih result
      refine ⟨asked, fun other outside => ?_⟩
      rw [map_cons, mem_cons, not_or] at outside
      rw [others other outside.2]
      exact update_of_ne outside.1 _ _

theorem applyCancellations_frame {next : EngineState V S} {cancelled : List Nat}
    (applied : applyCancellations cfg eng = .ok (cancelled, next)) :
    next.cancelRequested = [] ∧ ∀ req, next.requests req = eng.requests req ∨
      ((eng.requests req).requestId ∈ eng.cancelRequested ∧
        (req ∈ eng.running.map Sequence.request ∨ req ∈ eng.waiting)) := by
  unfold applyCancellations at applied
  split at applied
  case isTrue nothing =>
    simp only [Except.ok.injEq, Prod.mk.injEq] at applied
    rw [← applied.2]
    exact ⟨List.isEmpty_iff.mp nothing, fun _ => .inl rfl⟩
  case isFalse =>
    dsimp only at applied
    split at applied
    · cases applied
    · next stopped result =>
      simp only [Except.ok.injEq, Prod.mk.injEq] at applied
      rw [← applied.2]
      obtain ⟨asked, others⟩ := cancelRunning_frame result
      refine ⟨(cancelWaiting_frame _ _).2.trans asked, fun req => ?_⟩
      by_cases wanted : wants eng eng.cancelRequested req
      · by_cases here : req ∈ eng.running.map Sequence.request ∨ req ∈ eng.waiting
        · exact .inr ⟨of_decide_eq_true wanted, here⟩
        · left
          rw [not_or] at here
          rw [cancelWaiting_others _ _ fun hit => here.2 (mem_filter.mp hit).1]
          refine others req fun hit => here.1 ?_
          exact map_subset _ (filter_subset_self _) hit
      · left
        rw [cancelWaiting_others _ _ fun hit => wanted (mem_filter.mp hit).2]
        refine others req fun hit => wanted ?_
        obtain ⟨seq, mem, rfl⟩ := mem_map.mp hit
        exact (mem_filter.mp mem).2

theorem addRequest_frame (eng : EngineState V S) (req : Nat) (late : Bool) :
    (addRequest cfg eng req late).cancelRequested = eng.cancelRequested ∧
      (addRequest cfg eng req late).emitted = eng.emitted ∧
      ((addRequest cfg eng req late).newlyFinished = eng.newlyFinished ∨
        (addRequest cfg eng req late).newlyFinished = eng.newlyFinished ++ [req]) := by
  unfold addRequest
  split
  · exact ⟨rfl, rfl, .inr rfl⟩
  · exact ⟨rfl, rfl, .inl rfl⟩

/-! ## The engine of the thread -/

/-- The engine as the thread has it; what is shared already counts as drained. -/
def threadSession (server : AsyncEngine V S) : Session V S :=
  { server.session with
    engine := server.view
    drainedEmitted := server.session.drainedEmitted ++ server.session.engine.emitted
    drainedFinished := server.session.drainedFinished ++ server.session.engine.newlyFinished }

def threadMachine (server : AsyncEngine V S) : Machine V S := { session := threadSession server }

structure Tracks (cfg : Config X V L S) (server : AsyncEngine V S) : Prop where
  stock : Stock cfg (threadMachine server)
  orderly : Orderly cfg.maxBatchSize (threadMachine server).ledger
  distinct : server.session.submitted.Nodup

inductive ThreadMoves : AsyncEngine V S → AsyncEngine V S → Prop
  | stay (server : AsyncEngine V S) : ThreadMoves server server
  | take (server : AsyncEngine V S) :
    ThreadMoves server
      { server with
        session := { server.session with engine := { server.session.engine with cancelRequested := [] } }
        stage := .applying
        wanted := server.session.engine.cancelRequested }
  | work (server : AsyncEngine V S) (engine : EngineState V S) (stage : AsyncEngine.Stage)
    (emitting : server.emitting = []) (finishing : server.finishing = [])
    (clients : ∀ request, SameClient (server.session.engine.requests request) (engine.requests request))
    (tokens : ∀ entry ∈ engine.emitted, entry.1 ∈ server.session.submitted ∧ entry.1 ∉ server.session.outcomes)
    (wanted : engine.cancelRequested ⊆ server.wanted)
    (cancels : ∀ request, (engine.requests request).finishReason = some .cancelled →
      (server.session.engine.requests request).finishReason = some .cancelled ∨
        (request ∈ server.session.submitted ∧ server.requestId request ∈ server.wanted)) :
    ThreadMoves server (server.put engine stage)
  | emit (server : AsyncEngine V S) (entry : Nat × Nat) (emitting : List (Nat × Nat))
    (next : server.emitting = entry :: emitting) :
    ThreadMoves server
      { server with
        session := { server.session with
          engine := { server.session.engine with emitted := server.session.engine.emitted ++ [entry] } }
        emitting }
  | report (server : AsyncEngine V S) (request : Nat) (finishing : List Nat)
    (next : server.finishing = request :: finishing) (last : request ∉ server.emitting.map Prod.fst) :
    ThreadMoves server
      { server with
        session := { server.session with
          engine := { server.session.engine with newlyFinished := server.session.engine.newlyFinished ++ [request] } }
        finishing }
  | rest (server : AsyncEngine V S) : ThreadMoves server { server with stage := .idle }

namespace Tracks

variable {next : AsyncEngine V S}

section

variable (tracks : Tracks cfg srv)
include tracks

theorem submitted
    (standing : req ∈ srv.session.engine.running.map Sequence.request ∨ req ∈ srv.session.engine.waiting) :
    req ∈ srv.session.submitted := by
  have once : srv.session.engine.waiting.count req +
      ((srv.session.engine.running ++ []).map Sequence.request).count req + _ =
        srv.session.submitted.count req := tracks.orderly.partition req
  rw [append_nil] at once
  apply count_pos_iff.mp
  cases standing with
  | inl => grind
  | inr => grind

theorem outcomes_nodup : (threadSession srv).outcomes.Nodup := by
  rw [nodup_iff_count_le_one]
  intro req
  have once : _ + (threadSession srv).outcomes.count req = srv.session.submitted.count req :=
    tracks.orderly.partition req
  have most := nodup_iff_count_le_one.mp tracks.distinct req
  omega

theorem outcome_submitted (reported : req ∈ srv.session.outcomes) :
    req ∈ srv.session.submitted :=
  (tracks.orderly.elsewhere tracks.distinct (mem_append_left _ reported)).1

theorem reason (reported : req ∈ srv.session.outcomes) :
    (srv.session.engine.requests req).finishReason.isSome :=
  (tracks.orderly.ended req).mpr (mem_append_left _ reported)

end

theorem of_machine {m : Machine V S} {cancelRequested : List String} {emitted : List (Nat × Nat)}
    {newlyFinished : List Nat} (idle : m.pending = []) (stock : Stock cfg m)
    (orderly : Orderly cfg.maxBatchSize m.ledger) (distinct : m.session.submitted.Nodup)
    (submitted : next.session.submitted = m.session.submitted)
    (eng : next.view = { m.engine with cancelRequested, emitted, newlyFinished })
    (outcomes : (threadSession next).outcomes.Perm m.session.outcomes) : Tracks cfg next := by
  have engineEq : (threadMachine next).engine = { m.engine with cancelRequested, emitted, newlyFinished } := eng
  have seqs : (threadMachine next).seqs = m.seqs := by
    simp only [Machine.seqs, engineEq, idle]
    rfl
  have submittedEq : (threadMachine next).ledger.submitted = m.ledger.submitted := submitted
  have outcomesEq : (threadMachine next).ledger.outcomes.Perm m.ledger.outcomes := outcomes
  have waitingEq : (threadMachine next).ledger.waiting = m.ledger.waiting := by
    show (threadMachine next).engine.waiting = _
    rw [engineEq]
    rfl
  have activeEq : (threadMachine next).ledger.active = m.ledger.active := congrArg (map Sequence.request) seqs
  refine ⟨stock.congr (by grind) (by grind) seqs fun req => ?_, ⟨?_, ?_, ?_, ?_⟩, ?_⟩
  · rw [engineEq]
    exact .refl _
  · intro req
    rw [Ledger.standing, waitingEq, activeEq, outcomesEq.count_eq, submittedEq]
    exact orderly.partition req
  · intro req
    rw [outcomesEq.mem_iff, ← orderly.ended req]
    show ((threadMachine next).engine.requests req).finishReason.isSome ↔ _
    rw [engineEq]
    rfl
  · rw [outcomesEq.length_eq, ← orderly.counted]
    show (threadMachine next).engine.numFinished = _
    rw [engineEq]
    rfl
  · rw [activeEq]
    exact orderly.bounded
  · grind

theorem moved (tracks : Tracks cfg srv) {cancelRequested : List String} {emitted : List (Nat × Nat)}
    {newlyFinished : List Nat} (submitted : next.session.submitted = srv.session.submitted)
    (eng : next.view = { srv.view with cancelRequested, emitted, newlyFinished })
    (outcomes : (threadSession next).outcomes = (threadSession srv).outcomes) : Tracks cfg next :=
  of_machine rfl tracks.stock
    tracks.orderly tracks.distinct submitted eng (.of_eq outcomes)

section Work

variable {discarded : List (Nat × List Nat)}

theorem work (tracks : Tracks cfg srv)
    (steps : Reaches cfg (threadMachine srv) { (threadMachine srv).withEngine eng with discarded })
    (stage : AsyncEngine.Stage) : Tracks cfg (srv.put eng stage) :=
  of_machine rfl
    (tracks.stock.reaches steps) (tracks.orderly.steps (steps.ledgerSteps tracks.stock)) tracks.distinct rfl rfl
    (Perm.refl _)

theorem tokens (tracks : Tracks cfg srv) (emitting : srv.emitting = []) (finishing : srv.finishing = [])
    (steps : Reaches cfg (threadMachine srv) { (threadMachine srv).withEngine eng with discarded }) :
    ∀ entry ∈ eng.emitted, entry.1 ∈ srv.session.submitted ∧ entry.1 ∉ srv.session.outcomes := by
  obtain ⟨new, newEq, live⟩ := (steps.ledgerSteps tracks.stock).emits tracks.orderly tracks.distinct
  -- Nothing was left to append when the part began.
  have grown : (threadSession srv).drainedEmitted ++ eng.emitted =
      (threadSession srv).drainedEmitted ++ srv.emitting ++ new := newEq
  rw [emitting, append_nil, append_cancel_left_eq] at grown
  subst grown
  have same : (threadMachine srv).ledger.outcomes = srv.session.outcomes := by
    show (threadSession srv).drainedFinished ++ srv.finishing = _
    rw [finishing, append_nil]
    rfl
  rw [same] at live
  exact live

theorem moves (tracks : Tracks cfg srv) (settled : srv.settled = true)
    (steps : Reaches cfg (threadMachine srv) { (threadMachine srv).withEngine eng with discarded })
    (stage : AsyncEngine.Stage) (wanted : eng.cancelRequested ⊆ srv.wanted)
    (cancels : ∀ req, (eng.requests req).finishReason = some .cancelled →
      (srv.session.engine.requests req).finishReason = some .cancelled ∨
        (req ∈ srv.session.submitted ∧ srv.requestId req ∈ srv.wanted)) :
    Tracks cfg (srv.put eng stage) ∧ ThreadMoves srv (srv.put eng stage) := by
  simp only [AsyncEngine.settled, Bool.and_eq_true, List.isEmpty_iff] at settled
  obtain ⟨emitting, finishing⟩ := settled
  exact ⟨tracks.work steps stage, .work srv eng stage emitting finishing (fun req => steps.sameClient req)
    (tracks.tokens emitting finishing steps) wanted cancels⟩

end Work

theorem natural_cancels {before after : Request} (natural : Natural before after)
    (cancelled : after.finishReason = some .cancelled) : before.finishReason = some .cancelled := by
  obtain same | eos | length := natural
  · exact same.symm.trans cancelled
  · grind
  · grind

theorem threadStep (tracks : Tracks cfg srv) (event : AsyncEngine.ThreadEvent) :
    ∃ next, AsyncEngine.threadStep cfg srv event = .ok next ∧ Tracks cfg next ∧ ThreadMoves srv next := by
  have unchanged : ∃ next, (.ok srv : Except EngineError (AsyncEngine V S)) = .ok next ∧ Tracks cfg next ∧
      ThreadMoves srv next := ⟨srv, rfl, tracks, .stay srv⟩
  cases event with
  | take =>
    simp only [AsyncEngine.threadStep]
    split
    case isFalse => exact unchanged
    case isTrue => exact ⟨_, rfl, tracks.moved rfl rfl rfl, .take srv⟩
  | apply =>
    simp only [AsyncEngine.threadStep]
    split
    case isFalse => exact unchanged
    case isTrue due =>
      obtain ⟨done, eng, applied, steps⟩ := applyCancellations_steps tracks.stock
      change applyCancellations cfg srv.view = _ at applied
      obtain ⟨taken, frame⟩ := applyCancellations_frame applied
      rw [applied]
      refine ⟨_, rfl, tracks.moves due.2 steps .admitting (by grind) ?_⟩
      intro req cancelled
      cases frame req with
      | inl same =>
        rw [same] at cancelled
        exact .inl cancelled
      | inr hit => exact .inr ⟨tracks.submitted hit.2, hit.1⟩
  | admitRequests =>
    simp only [AsyncEngine.threadStep]
    split
    case isFalse => exact unchanged
    case isTrue due =>
      have stock : Stock cfg ((threadMachine srv).admitting srv.view [] srv.view.waiting) := by
        rw [Machine.admitting_nil]
        exact tracks.stock
      obtain ⟨newSeqs, ended, eng, admitted, steps⟩ := @admitLoop_steps X V L S cfg _ _ srv.view [] [] stock
      have admits := admitLoop_admits _ _ stock admitted
      have result : admitRequests cfg srv.view = .ok (newSeqs, ended, eng) := admitted
      rw [Machine.admitting_nil] at steps
      rw [result]
      refine ⟨_, rfl, tracks.moves due.2 steps .decoding (by rw [admits.cancelRequested]; exact Subset.refl _) ?_⟩
      exact fun req cancelled => .inl (natural_cancels (admits.natural req) cancelled)
  | decode =>
    simp only [AsyncEngine.threadStep]
    split
    case isFalse => exact unchanged
    case isTrue due =>
      obtain ⟨ended, eng, discarded, decoded, -, steps⟩ := decode_steps tracks.stock rfl due.2.2 []
      have proceeds := decode_proceeds tracks.stock rfl due.2.2 decoded
      change ContinuousBatchingEngine.decode cfg srv.view [] = _ at decoded
      rw [decoded]
      refine ⟨_, rfl, tracks.moves due.2.1 steps .returning
        (by rw [proceeds.cancelRequested]; exact Subset.refl _) ?_⟩
      exact fun req cancelled => .inl (natural_cancels (proceeds.natural req) cancelled)
  | emit =>
    simp only [AsyncEngine.threadStep]
    split
    case h_1 => exact unchanged
    case h_2 entry emitting due => exact ⟨_, rfl, tracks.moved rfl rfl rfl, .emit srv entry emitting due⟩
  | report =>
    simp only [AsyncEngine.threadStep]
    split
    case h_1 => exact unchanged
    case h_2 req finishing due =>
      split
      case isTrue => exact unchanged
      case isFalse last =>
        refine ⟨_, rfl, tracks.moved rfl rfl ?_, .report srv req finishing due last⟩
        show _ ++ (_ ++ [req]) ++ finishing = _ ++ _ ++ srv.finishing
        rw [due]
        simp
  | rest =>
    simp only [AsyncEngine.threadStep]
    split
    case isFalse => exact unchanged
    case isTrue => exact ⟨_, rfl, tracks.moved rfl rfl rfl, .rest srv⟩

end Tracks

/-! ## The event loop -/

section Submit

structure Submits (server next : AsyncEngine V S) (request : Nat) : Prop where
  streams : next.streams = server.streams.set (server.requestId request) request
  stream : next.stream = update server.stream request {}
  submitted : next.session.submitted = server.session.submitted ++ [request]
  drainedEmitted : next.session.drainedEmitted = server.session.drainedEmitted
  drainedFinished : next.session.drainedFinished = server.session.drainedFinished
  emitted : next.session.engine.emitted = server.session.engine.emitted
  emitting : next.emitting = server.emitting
  cancelRequested : next.session.engine.cancelRequested = server.session.engine.cancelRequested
  wanted : next.wanted = server.wanted
  requestId : ∀ other, next.requestId other = server.requestId other
  /-- Only the request itself may have an outcome now, if it is rejected. -/
  outcomes : ∀ other, other ≠ request → other ∈ next.session.outcomes → other ∈ server.session.outcomes
  cancelled : ∀ other, (next.session.engine.requests other).finishReason = some .cancelled →
    (server.session.engine.requests other).finishReason = some .cancelled

theorem submit_again (late : Bool) (again : req ∈ srv.session.submitted) :
    srv.submit cfg req late = srv :=
  if_pos again

theorem submit_new {srv : AsyncEngine V S} {req : Nat} (late : Bool)
    (new : req ∉ srv.session.submitted) : Submits srv (srv.submit cfg req late) req := by
  obtain ⟨cancelRequested, emitted, reported⟩ := addRequest_frame srv.session.engine req late
  rw [AsyncEngine.submit, if_neg new]
  refine ⟨rfl, rfl, rfl, rfl, rfl, emitted, rfl, cancelRequested, rfl, ?_, ?_, ?_⟩
  · exact fun other => (sameClient_addRequest srv.session.engine req late other).requestId
  · intro other differs outcome
    change other ∈ _ ++ (addRequest cfg srv.session.engine req late).newlyFinished at outcome
    obtain same | more := reported
    · rw [same] at outcome
      exact outcome
    · rw [more, ← append_assoc] at outcome
      exact (mem_append.mp outcome).resolve_right fun single => differs (mem_singleton.mp single)
  · intro other cancelled
    simp only [addRequest] at cancelled
    split at cancelled
    case h_2 => exact cancelled
    case h_1 =>
      by_cases here : other = req
      · subst here
        simp [reject, recordFinished, finish, Request.finish] at cancelled
      · simpa [reject, recordFinished, finish, update_of_ne here] using cancelled

end Submit

section Fanout

def deliveries (server : AsyncEngine V S) (entries : List (Nat × Nat)) (request : Nat) : List Nat :=
  (entries.filter fun entry => server.streams.get? (server.requestId entry.1) = some request).map Prod.snd

theorem deliver_all (entries : List (Nat × Nat)) (srv : AsyncEngine V S) :
    entries.foldl AsyncEngine.deliver srv =
      { srv with
        stream := fun req =>
          { srv.stream req with
            queue := (srv.stream req).queue ++ deliveries srv entries req } } := by
  induction entries generalizing srv with
  | nil => simp [deliveries]
  | cons entry _ ih =>
    rw [foldl_cons, ih]
    cases found : srv.streams.get? (srv.requestId entry.1) with
    | none => simp [AsyncEngine.deliver, deliveries, found]
    | some target =>
      simp only [AsyncEngine.deliver, found, setStream, AsyncEngine.mk.injEq, true_and, and_true]
      simp only [AsyncEngine.requestId] at found
      funext req
      by_cases here : req = target
      · subst here
        simp [deliveries, found, AsyncEngine.requestId]
        rfl
      · have differs : ¬target = req := fun same => here same.symm
        simp [deliveries, found, AsyncEngine.requestId, update_of_ne here, differs]
        rfl

def Signals (server : AsyncEngine V S) (finished : List Nat) (request : Nat) : Prop :=
  ∃ other ∈ finished, server.streams.get? (server.requestId other) = some request ∧
    (server.session.engine.requests other).finishReason.isSome

theorem signal_isSome (srv : AsyncEngine V S) (other req : Nat) :
    ((srv.signal other).stream req).finishReason.isSome ↔ (srv.stream req).finishReason.isSome ∨
      (srv.streams.get? (srv.requestId other) = some req ∧
        (srv.session.engine.requests other).finishReason.isSome) := by
  unfold signal
  split
  case h_1 target reason found ended =>
    rw [found, ended]
    by_cases here : req = target
    · subst here
      simp [setStream]
    · simp [setStream, update_of_ne here, Ne.symm here]
  case h_2 missing =>
    cases found : srv.streams.get? (srv.requestId other) with
    | none => simp
    | some target =>
      cases ended : (srv.session.engine.requests other).finishReason with
      | none => simp
      | some reason => exact absurd ended (missing target reason found)

theorem signal_all (finished : List Nat) (srv : AsyncEngine V S) :
    ∃ reasons : Nat → Option FinishReason,
      finished.foldl signal srv =
        { srv with
          stream := fun req => { srv.stream req with finishReason := reasons req } } ∧
      ∀ req, (reasons req).isSome ↔
        (srv.stream req).finishReason.isSome ∨ Signals srv finished req := by
  induction finished generalizing srv with
  | nil => exact ⟨fun req => (srv.stream req).finishReason, rfl, fun req => by simp [Signals]⟩
  | cons other finished ih =>
    obtain ⟨reasons, rest, exact⟩ := ih (srv.signal other)
    refine ⟨reasons, ?_, fun req => (exact req).trans ?_⟩
    · rw [foldl_cons, rest]
      simp only [signal]
      split
      case h_1 target reason _ _ =>
        simp only [setStream, AsyncEngine.mk.injEq, true_and, and_true]
        funext req
        by_cases here : req = target
        · subst here
          simp
        · simp [update_of_ne here]
      case h_2 => rfl
    · have later : Signals (srv.signal other) finished req ↔ Signals srv finished req := by
        simp only [signal]
        split <;> rfl
      have split : Signals srv (other :: finished) req ↔
          (srv.streams.get? (srv.requestId other) = some req ∧
            (srv.session.engine.requests other).finishReason.isSome) ∨ Signals srv finished req := by
        simp [Signals]
      rw [later, split, ← or_assoc, signal_isSome]

theorem fanoutEmitted_eq (srv : AsyncEngine V S) :
    srv.fanoutEmitted =
      { srv with
        session := { srv.session with
          engine := { srv.session.engine with emitted := [] }
          drainedEmitted := srv.session.drainedEmitted ++ srv.session.engine.emitted }
        stream := fun req =>
          { srv.stream req with
            queue := (srv.stream req).queue ++ deliveries srv srv.session.engine.emitted req } } :=
  deliver_all srv.session.engine.emitted _

theorem fanoutFinished_eq (srv : AsyncEngine V S) :
    ∃ reasons : Nat → Option FinishReason,
      srv.fanoutFinished =
        { srv with
          session := { srv.session with
            engine := { srv.session.engine with newlyFinished := [] }
            drainedFinished := srv.session.drainedFinished ++ srv.session.engine.newlyFinished }
          stream := fun req => { srv.stream req with finishReason := reasons req } } ∧
      ∀ req, (reasons req).isSome ↔
        (srv.stream req).finishReason.isSome ∨ Signals srv srv.session.engine.newlyFinished req :=
  signal_all srv.session.engine.newlyFinished
    { srv with
      session := { srv.session with
        engine := { srv.session.engine with newlyFinished := [] }
        drainedFinished := srv.session.drainedFinished ++ srv.session.engine.newlyFinished } }

end Fanout

namespace Tracks

variable {next : AsyncEngine V S}

section

variable (tracks : Tracks cfg srv)
include tracks

theorem fanoutEmitted : Tracks cfg srv.fanoutEmitted := by
  rw [fanoutEmitted_eq]
  exact tracks.moved rfl rfl rfl

theorem fanoutFinished : Tracks cfg srv.fanoutFinished := by
  obtain ⟨reasons, fanned, -⟩ := fanoutFinished_eq srv
  rw [fanned]
  refine tracks.moved rfl rfl ?_
  simp [threadSession, Session.outcomes, view]

theorem halfway {Inv : AsyncEngine V S → Prop}
    (kept : ∀ srv next, Tracks cfg srv → ThreadMoves srv next → Inv srv → Inv next)
    (initially : Inv srv.fanoutEmitted) (between : List AsyncEngine.ThreadEvent) :
    ∃ middle, srv.halfway cfg between = .ok middle ∧ Tracks cfg middle ∧ Inv middle := by
  refine @run_total _ _ _ (AsyncEngine.threadStep cfg) (fun srv => Tracks cfg srv ∧ Inv srv) ?_ between _
    ⟨tracks.fanoutEmitted, initially⟩
  rintro state event ⟨stateTracks, held⟩
  obtain ⟨next, went, nextTracks, moves⟩ := stateTracks.threadStep event
  exact ⟨next, went, nextTracks, kept state next stateTracks moves held⟩

theorem submit (req : Nat) (late : Bool) :
    Tracks cfg (srv.submit cfg req late) := by
  unfold AsyncEngine.submit
  split
  case isTrue => exact tracks
  case isFalse new =>
    have step : Transition cfg (threadMachine srv) _ := .submit (threadMachine srv) req late
    have distinct : (srv.session.submitted ++ [req]).Nodup :=
      nodup_append.mpr ⟨tracks.distinct, nodup_singleton _, fun first mem second single same => by
        obtain rfl := mem_singleton.mp single
        exact new (same ▸ mem)⟩
    refine @of_machine _ _ _ _ cfg _ _ srv.wanted srv.emitting srv.finishing rfl (tracks.stock.transition step)
      (tracks.orderly.steps (step.ledgerSteps tracks.stock)) distinct rfl ?_ ?_
    · show view _ = { addRequest cfg srv.view req late with
        cancelRequested := srv.wanted, emitted := srv.emitting, newlyFinished := srv.finishing }
      simp only [addRequest, view]
      split <;> rfl
    · show (srv.session.drainedFinished ++ (addRequest cfg srv.session.engine req late).newlyFinished ++
        srv.finishing).Perm (srv.session.drainedFinished ++ srv.session.engine.newlyFinished ++
          (addRequest cfg srv.view req late).newlyFinished)
      simp only [addRequest, view]
      split
      case h_1 =>
        simp only [reject, recordFinished, finish, append_assoc]
        exact (perm_append_comm.append_left _).append_left _
      case h_2 => rfl

theorem step (event : AsyncEngine.Event) :
    ∃ next, AsyncEngine.step cfg srv event = .ok next ∧ Tracks cfg next := by
  cases event with
  | thread event =>
    obtain ⟨next, went, nextTracks, -⟩ := tracks.threadStep event
    exact ⟨next, went, nextTracks⟩
  | submit req late => exact ⟨_, rfl, tracks.submit req late⟩
  | cancel => exact ⟨_, rfl, tracks.moved rfl rfl rfl⟩
  | fanout between =>
    obtain ⟨middle, ran, middleTracks, -⟩ :=
      @halfway _ _ _ _ _ _ tracks (fun _ => True) (fun _ _ _ _ _ => trivial) trivial between
    exact ⟨middle.fanoutFinished, by simp only [AsyncEngine.step, ran], middleTracks.fanoutFinished⟩
  | get =>
    refine ⟨_, rfl, ?_⟩
    unfold AsyncEngine.get
    split
    · exact tracks
    · exact tracks.moved rfl rfl rfl
  | release => exact ⟨_, rfl, tracks.moved rfl rfl rfl⟩

end

theorem new (numBlocks : Nat) {size : Nat} (caching : Bool) (zero : V) (clients : Nat → Submission)
    (rng : S) (pos : 0 < size) :
    Tracks cfg (AsyncEngine.new cfg numBlocks size caching zero clients rng) :=
  ⟨@Stock.new X V L S cfg numBlocks size caching zero clients rng pos,
    Orderly.new numBlocks size caching zero clients rng, nodup_nil⟩

end Tracks

end Nanoserve.Verified
