import Nanoserve.Verified.Completion
import Nanoserve.Verified.Emission
import Nanoserve.Verified.Transcript

/-! # What is held back when a connection is done

Text that ends in a replacement character is held back.
-/

namespace Nanoserve.Verified

open Engine Lib Model List Function
open ContinuousBatchingEngine
open Frontend (setConnection)

variable {X V L S : Type} {cfg : Config X V L S}
variable {event : Frontend.Event} {req : Nat}

/-! ## A request that is never thrown out -/

/-- The request the thread throws out at an event. -/
def thrownOut (server : AsyncEngine V S) : AsyncEngine.ThreadEvent → Option Nat
  | .decode =>
    if server.stage = .decoding ∧ server.settled ∧ server.session.engine.running ≠ [] then preempted server.view
    else none
  | _ => none

/-- The thread does not throw the request out. -/
def Spares (cfg : Config X V L S) (request : Nat) (server : AsyncEngine V S) : AsyncEngine.Event → Prop
  | .thread event => thrownOut server event ≠ some request
  | .fanout between =>
    Along (AsyncEngine.threadStep cfg) (fun server event => thrownOut server event ≠ some request)
      server.fanoutEmitted between
  | _ => True

instance (request : Nat) (server : AsyncEngine V S) :
    (event : AsyncEngine.Event) → Decidable (Spares cfg request server event)
  | .thread event => inferInstanceAs (Decidable (thrownOut server event ≠ some request))
  | .fanout between => inferInstanceAs (Decidable (Along (AsyncEngine.threadStep cfg)
      (fun server event => thrownOut server event ≠ some request) server.fanoutEmitted between))
  | .submit _ _ | .cancel _ | .get _ | .release _ => .isTrue trivial

def ghostMachine (server : AsyncEngine V S) (discarded : List (Nat × List Nat)) : Machine V S :=
  { session := threadSession server, discarded }

/-- Nothing is lost between the stream and the heap, and nothing of this request was thrown away. -/
def Unspoiled (request : Nat) (server : AsyncEngine V S) : Prop :=
  ∃ discarded, (ghostMachine server discarded).ledger.Streamed ∧ request ∉ discarded.map Prod.fst

namespace Unspoiled

variable {srv next : AsyncEngine V S}

theorem emittedFor (unspoiled : Unspoiled req srv) :
    srv.emittedFor req = (srv.session.engine.requests req).outputTokenIds := by
  obtain ⟨_, streamed, absent⟩ := unspoiled
  have all := streamed req
  rw [discardedFor_eq_nil absent, nil_append] at all
  exact all

theorem of_same (unspoiled : Unspoiled req srv)
    (emitted : (threadSession next).drainedEmitted ++ next.emitting = (threadSession srv).drainedEmitted ++ srv.emitting)
    (output : ∀ other, (next.session.engine.requests other).outputTokenIds =
      (srv.session.engine.requests other).outputTokenIds) : Unspoiled req next := by
  obtain ⟨discarded, streamed, absent⟩ := unspoiled
  refine ⟨discarded, fun other => ?_, absent⟩
  have before := streamed other
  change (filter _ ((threadSession srv).drainedEmitted ++ srv.emitting)).map _ = _ ++
    (srv.session.engine.requests other).outputTokenIds at before
  change (filter _ ((threadSession next).drainedEmitted ++ next.emitting)).map _ = _ ++
    (next.session.engine.requests other).outputTokenIds
  rw [emitted, output]
  exact before

theorem work {eng : EngineState V S} {discarded thrown : List (Nat × List Nat)}
    (streamed : (ghostMachine srv discarded).ledger.Streamed) (absent : req ∉ discarded.map Prod.fst)
    (stock : Stock cfg (ghostMachine srv discarded))
    (steps : Reaches cfg (ghostMachine srv discarded)
      { (ghostMachine srv discarded).withEngine eng with discarded := discarded ++ thrown })
    (spared : req ∉ thrown.map Prod.fst) (stage : AsyncEngine.Stage) :
    Unspoiled req (srv.put eng stage) := by
  refine ⟨discarded ++ thrown, (steps.ledgerSteps stock).streamed streamed, ?_⟩
  rw [map_append, mem_append, not_or]
  exact ⟨absent, spared⟩

section

variable (unspoiled : Unspoiled req srv)
include unspoiled

theorem threadStep (tracks : Tracks cfg srv)
    {event : AsyncEngine.ThreadEvent} (spared : thrownOut srv event ≠ some req)
    (went : AsyncEngine.threadStep cfg srv event = .ok next) : Unspoiled req next := by
  have unchanged : (.ok srv : Except EngineError (AsyncEngine V S)) = .ok next → Unspoiled req next := by grind
  obtain ⟨discarded, streamed, absent⟩ := id unspoiled
  have stock : Stock cfg (ghostMachine srv discarded) := tracks.stock.congr rfl rfl rfl fun _ => .refl _
  have none : req ∉ ([] : List (Nat × List Nat)).map Prod.fst := not_mem_nil
  cases event with
  | take =>
    simp only [AsyncEngine.threadStep] at went
    split at went
    case isFalse => exact unchanged went
    case isTrue =>
      cases went
      exact unspoiled.of_same rfl fun _ => rfl
  | apply =>
    simp only [AsyncEngine.threadStep] at went
    split at went
    case isFalse => exact unchanged went
    case isTrue =>
      obtain ⟨_, eng, applied, steps⟩ := applyCancellations_steps stock
      change applyCancellations cfg srv.view = _ at applied
      rw [applied] at went
      cases went
      exact work streamed absent stock (by rw [append_nil]; exact steps) none .admitting
  | admitRequests =>
    simp only [AsyncEngine.threadStep] at went
    split at went
    case isFalse => exact unchanged went
    case isTrue =>
      have shown : Stock cfg ((ghostMachine srv discarded).admitting srv.view [] srv.view.waiting) := by
        rw [Machine.admitting_nil]
        exact stock
      obtain ⟨newSeqs, ended, eng, admitted, steps⟩ := @admitLoop_steps X V L S cfg _ _ srv.view [] [] shown
      have result : admitRequests cfg srv.view = .ok (newSeqs, ended, eng) := admitted
      rw [Machine.admitting_nil] at steps
      rw [result] at went
      cases went
      exact work streamed absent stock (by rw [append_nil]; exact steps) none .decoding
  | decode =>
    simp only [AsyncEngine.threadStep] at went
    split at went
    case isFalse => exact unchanged went
    case isTrue due =>
      obtain ⟨ended, eng, _, decoded, who, steps⟩ := decode_steps stock rfl due.2.2 []
      change ContinuousBatchingEngine.decode cfg srv.view [] = _ at decoded
      rw [decoded] at went
      cases went
      refine work streamed absent stock steps ?_ .returning
      rw [who, Option.mem_toList]
      simp only [thrownOut, if_pos due] at spared
      exact spared
  | emit =>
    simp only [AsyncEngine.threadStep] at went
    split at went
    case h_1 => exact unchanged went
    case h_2 _ _ due =>
      cases went
      refine unspoiled.of_same ?_ fun _ => rfl
      simp [threadSession, due]
  | report =>
    simp only [AsyncEngine.threadStep] at went
    split at went
    case h_1 => exact unchanged went
    case h_2 =>
      split at went
      case isTrue => exact unchanged went
      case isFalse =>
        cases went
        exact unspoiled.of_same rfl fun _ => rfl
  | rest =>
    simp only [AsyncEngine.threadStep] at went
    split at went
    case isFalse => exact unchanged went
    case isTrue =>
      cases went
      exact unspoiled.of_same rfl fun _ => rfl

theorem fanoutEmitted : Unspoiled req srv.fanoutEmitted := by
  rw [fanoutEmitted_eq]
  refine unspoiled.of_same ?_ fun _ => rfl
  simp [threadSession]

theorem fanoutFinished : Unspoiled req srv.fanoutFinished := by
  obtain ⟨_, fanned, -⟩ := fanoutFinished_eq srv
  rw [fanned]
  exact unspoiled.of_same rfl fun _ => rfl

theorem step (tracks : Tracks cfg srv) {event : AsyncEngine.Event}
    (spared : Spares cfg req srv event) (went : AsyncEngine.step cfg srv event = .ok next) :
    Unspoiled req next := by
  cases event with
  | thread => exact unspoiled.threadStep tracks spared went
  | submit added late =>
    cases went
    simp only [AsyncEngine.submit]
    split
    case isTrue => exact unspoiled
    case isFalse =>
      refine unspoiled.of_same ?_ fun other => ?_
      · simp [threadSession, AsyncEngine.setStream, (addRequest_frame srv.session.engine added late).2.1]
      · simp only [addRequest]
        split
        case h_1 => exact (output_update (by rfl) other).trans (output_update (by rfl) other)
        case h_2 => rfl
  | cancel =>
    cases went
    exact unspoiled.of_same rfl fun _ => rfl
  | fanout =>
    simp only [AsyncEngine.step] at went
    split at went
    case h_1 => cases went
    case h_2 _ ran =>
      cases went
      have kept := @run_preserves _ _ _ (AsyncEngine.threadStep cfg)
        (fun srv => Tracks cfg srv ∧ Unspoiled req srv) _ (fun state event next held sparedHere reached => by
          obtain ⟨_, reachedEq, reachedTracks, -⟩ := held.1.threadStep event
          obtain rfl := Except.ok.inj (reachedEq.symm.trans reached)
          exact ⟨reachedTracks, held.2.threadStep held.1 sparedHere reached⟩) _ _ _
        ⟨tracks.fanoutEmitted, unspoiled.fanoutEmitted⟩ spared ran
      exact kept.2.fanoutFinished
  | get =>
    cases went
    simp only [AsyncEngine.get]
    split
    · exact unspoiled
    · exact unspoiled.of_same rfl fun _ => rfl
  | release =>
    cases went
    exact unspoiled.of_same rfl fun _ => rfl

end

end Unspoiled

section Events

variable {μ : Type} {door : Nat → Door μ} {tok : BPETokenizer} {frontend next : Frontend V S μ}

/-- A condition on the events of the server. -/
def OnServer (Cond : AsyncEngine V S → AsyncEngine.Event → Prop) (frontend : Frontend V S μ) : Frontend.Event → Prop
  | .server event => Cond frontend.server event
  | .attend _ | .poll _ _ => True

instance (Cond : AsyncEngine V S → AsyncEngine.Event → Prop) [∀ server event, Decidable (Cond server event)]
    (frontend : Frontend V S μ) : (event : Frontend.Event) → Decidable (OnServer Cond frontend event)
  | .server event => inferInstanceAs (Decidable (Cond frontend.server event))
  | .attend _ | .poll _ _ => .isTrue trivial

theorem server_cases (went : frontend.step cfg door tok event = .ok next) :
    next.server = frontend.server ∨
      ∃ done, AsyncEngine.step cfg frontend.server done = .ok next.server ∧
        (event = .server done ∨ (∃ req, done = .get req) ∨ ∃ requestId, done = .release requestId) := by
  cases event with
  | server event =>
    cases event with
    | get =>
      cases went
      exact .inl rfl
    | _ =>
      simp only [Frontend.step] at went
      split at went
      case h_1 => cases went
      case h_2 _ reached =>
        cases went
        exact .inr ⟨_, reached, .inl rfl⟩
  | attend req =>
    cases went
    simp only [Frontend.attend]
    split
    case isFalse => exact .inl rfl
    case isTrue =>
      split
      case isTrue => exact .inr ⟨.release (frontend.server.requestId req), rfl, .inr (.inr ⟨_, rfl⟩)⟩
      case isFalse => exact .inl rfl
  | poll req disconnected =>
    cases went
    simp only [Frontend.poll]
    split
    case isFalse => exact .inl rfl
    case isTrue =>
      cases disconnected with
      | true => exact .inl rfl
      | false => exact .inr ⟨.get req, rfl, .inr (.inl ⟨req, rfl⟩)⟩

theorem server_kept {Inv : AsyncEngine V S → Prop} {Cond : AsyncEngine V S → AsyncEngine.Event → Prop}
    (kept : ∀ srv event next, Inv srv → Cond srv event → AsyncEngine.step cfg srv event = .ok next → Inv next)
    (reads : ∀ srv req, Cond srv (.get req)) (releases : ∀ srv requestId, Cond srv (.release requestId))
    {event : Frontend.Event} (held : Inv frontend.server) (met : OnServer Cond frontend event)
    (went : frontend.step cfg door tok event = .ok next) : Inv next.server := by
  obtain same | ⟨done, reached, rfl | ⟨req, rfl⟩ | ⟨requestId, rfl⟩⟩ := server_cases went
  · grind
  · exact kept _ _ _ held met reached
  · exact kept _ _ _ held (reads _ _) reached
  · exact kept _ _ _ held (releases _ _) reached

theorem frontend_step_ok (tracks : Tracks cfg frontend.server) (event : Frontend.Event) :
    ∃ next, frontend.step cfg door tok event = .ok next := by
  cases event with
  | server event =>
    obtain ⟨srv, reached, -⟩ := tracks.step event
    cases event with
    | get => exact ⟨frontend, rfl⟩
    | _ => exact ⟨{ frontend with server := srv }, by simp only [Frontend.step, reached]⟩
  | attend => exact ⟨_, rfl⟩
  | poll => exact ⟨_, rfl⟩

/-! ## Connections and their queues -/

theorem received_step {srv after : AsyncEngine V S} {event : AsyncEngine.Event} (tracks : Tracks cfg srv)
    (went : AsyncEngine.step cfg srv event = .ok after) {req : Nat} (other : event ≠ .get req) :
    srv.session.submitted ⊆ after.session.submitted ∧
      ((after.stream req).received = (srv.stream req).received ∨
        (req ∉ srv.session.submitted ∧ (after.stream req).received = [])) := by
  have threadMoves : ∀ {srv after : AsyncEngine V S}, ThreadMoves srv after →
      after.session.submitted = srv.session.submitted ∧ after.stream = srv.stream := by
    intro srv after moves
    cases moves <;> exact ⟨rfl, rfl⟩
  cases event with
  | thread event =>
    obtain ⟨_, movedEq, -, moves⟩ := tracks.threadStep event
    obtain rfl := Except.ok.inj (movedEq.symm.trans went)
    obtain ⟨submitted, stream⟩ := threadMoves moves
    rw [submitted, stream]
    exact ⟨Subset.refl _, .inl rfl⟩
  | submit added late =>
    cases went
    by_cases new : added ∈ srv.session.submitted
    · rw [submit_again late new]
      exact ⟨Subset.refl _, .inl rfl⟩
    · have submits := @submit_new _ _ _ _ cfg srv added late new
      rw [submits.submitted, submits.stream]
      refine ⟨subset_append_left _ _, ?_⟩
      by_cases own : req = added
      · subst own
        rw [update_self]
        exact .inr ⟨new, rfl⟩
      · rw [update_of_ne own]
        exact .inl rfl
  | cancel =>
    cases went
    exact ⟨Subset.refl _, .inl rfl⟩
  | fanout between =>
    obtain ⟨middle, ran, -, submitted, received⟩ := @Tracks.halfway _ _ _ _ _ _ tracks
      (fun state => state.session.submitted = srv.session.submitted ∧
        (state.stream req).received = (srv.stream req).received)
      (fun _ _ _ moves held => by
        obtain ⟨submitted, stream⟩ := threadMoves moves
        rw [submitted, stream]
        exact held)
      (by rw [fanoutEmitted_eq]; exact ⟨rfl, rfl⟩) between
    simp only [AsyncEngine.step, ran, Except.ok.injEq] at went
    obtain ⟨_, fanned, -⟩ := fanoutFinished_eq middle
    rw [← went, fanned]
    exact ⟨fun other mem => submitted ▸ mem, .inl received⟩
  | get reader =>
    cases went
    have differs : req ≠ reader := by
      rintro rfl
      exact other rfl
    simp only [AsyncEngine.get]
    split
    · exact ⟨Subset.refl _, .inl rfl⟩
    · refine ⟨Subset.refl _, .inl ?_⟩
      simp [AsyncEngine.setStream, update_of_ne differs]
  | release =>
    cases went
    exact ⟨Subset.refl _, .inl rfl⟩

/-- A connection in its loop has read what was taken off its queue, and has sent the text of it. -/
structure Listens (door : Nat → Door μ) (tok : BPETokenizer) (request : Nat) (frontend : Frontend V S μ) : Prop where
  absent : (frontend.connections request).stage = .absent → (frontend.server.stream request).received = []
  submitted : (frontend.connections request).stage ≠ .absent → request ∈ frontend.server.session.submitted
  reports : (frontend.connections request).stage = .reading →
    Reports (door request) tok (frontend.connections request) ∧
      (frontend.connections request).cursor.produced = (frontend.server.stream request).received

namespace Listens

section

variable (listens : Listens door tok req frontend)
include listens

theorem of_other
    (same : next.connections req = frontend.connections req)
    (submitted : frontend.server.session.submitted ⊆ next.server.session.submitted)
    (received : (next.server.stream req).received = (frontend.server.stream req).received ∨
      (req ∉ frontend.server.session.submitted ∧ (next.server.stream req).received = [])) :
    Listens door tok req next := by
  obtain ⟨_, opened, reports⟩ := listens
  refine ⟨?_, ?_, ?_⟩
  · grind
  · grind
  · intro stage
    rw [same] at stage
    have there := opened (by grind)
    have kept := received.resolve_right fun fresh => fresh.1 there
    rw [same, kept]
    exact reports stage

theorem take (reading : (frontend.connections req).stage = .reading)
    {tokenId : Nat} {queue : List Nat} (queued : (frontend.server.stream req).queue = tokenId :: queue) :
    Listens door tok req ({ frontend with server := frontend.server.get req }.setConnection req
      ((frontend.connections req).accept (door req) tok tokenId)) := by
  obtain ⟨reports, produced⟩ := listens.reports reading
  have there := listens.submitted (by grind)
  have got : frontend.server.get req = frontend.server.setStream req
      { frontend.server.stream req with
        queue
        received := (frontend.server.stream req).received ++ [tokenId] } := by
    simp only [AsyncEngine.get, queued]
  rw [got]
  cases decoded : tok.decode ((frontend.connections req).cursor.produced ++ [tokenId]) with
  | none =>
    have raised : (frontend.connections req).accept (door req) tok tokenId =
        { frontend.connections req with stage := .raised } := by
      simp only [Connection.accept, Cursor.accept, decoded]
    rw [raised]
    refine ⟨fun stage => ?_, fun _ => there, fun stage => ?_⟩
    · simp [setConnection] at stage
    · simp [setConnection] at stage
  | some =>
    obtain ⟨reportsNext, producedNext, stageNext⟩ := reports.accept decoded
    rw [reading] at stageNext
    rw [produced] at producedNext
    refine ⟨fun stage => ?_, fun _ => there, fun _ => ?_⟩
    · simp [setConnection, stageNext] at stage
    · simp only [setConnection, AsyncEngine.setStream, update_self]
      exact ⟨reportsNext, producedNext⟩

theorem poll (disconnected : Bool) :
    Listens door tok req (frontend.poll door tok req disconnected) := by
  simp only [Frontend.poll]
  split
  case isFalse => exact listens
  case isTrue reading =>
    have there := listens.submitted (by grind)
    have closed : ∀ srv : AsyncEngine V S, req ∈ srv.session.submitted →
        Listens door tok req (setConnection { frontend with server := srv } req
          ((frontend.connections req).close (door req) (frontend.server.stream req))) := by
      intro srv known
      refine ⟨fun stage => ?_, fun _ => known, fun stage => ?_⟩
      · simp [setConnection, Connection.close] at stage
      · simp [setConnection, Connection.close] at stage
    cases disconnected with
    | true => exact closed frontend.server there
    | false =>
      cases queued : (frontend.server.stream req).queue with
      | nil =>
        have got : frontend.server.get req = frontend.server := by simp only [AsyncEngine.get, queued]
        simp only [Connection.poll, queued, if_neg Bool.false_ne_true, got]
        split
        case isTrue => exact closed frontend.server there
        case isFalse =>
          exact listens.of_other (by simp [setConnection]) (Subset.refl _) (.inl rfl)
      | cons =>
        simp only [Connection.poll, queued, if_neg Bool.false_ne_true]
        exact listens.take reading queued

theorem step (tracks : Tracks cfg frontend.server)
    (went : frontend.step cfg door tok event = .ok next) : Listens door tok req next := by
  cases event with
  | server event =>
    cases event with
    | get =>
      cases went
      exact listens
    | _ =>
      simp only [Frontend.step] at went
      split at went
      case h_1 => cases went
      case h_2 _ reached =>
        cases went
        obtain ⟨submitted, received⟩ := received_step tracks reached AsyncEngine.Event.noConfusion
        exact listens.of_other rfl submitted received
  | attend opened =>
    cases went
    simp only [Frontend.attend]
    split
    case isFalse => exact listens
    case isTrue due =>
      by_cases own : req = opened
      · subst own
        split
        case isTrue =>
          refine ⟨fun stage => ?_, fun _ => due.2, fun stage => ?_⟩
          · simp [setConnection] at stage
          · simp [setConnection] at stage
        case isFalse =>
          refine ⟨fun stage => ?_, fun _ => due.2, fun _ => ?_⟩
          · simp [setConnection, Connection.opened] at stage
          · simp only [setConnection, update_self]
            exact ⟨.opened, (listens.absent due.1).symm⟩
      · split
        · exact listens.of_other (update_of_ne own _ _) (Subset.refl _) (.inl rfl)
        · exact listens.of_other (update_of_ne own _ _) (Subset.refl _) (.inl rfl)
  | poll polled disconnected =>
    cases went
    by_cases own : req = polled
    · subst own
      exact listens.poll disconnected
    · simp only [Frontend.poll]
      split
      case isFalse => exact listens
      case isTrue =>
        cases disconnected with
        | true => exact listens.of_other (update_of_ne own _ _) (Subset.refl _) (.inl rfl)
        | false =>
          obtain ⟨submitted, received⟩ := @received_step _ _ _ _ cfg _ _ (.get polled) tracks rfl req (by
            rintro ⟨⟩
            exact own rfl)
          exact listens.of_other (update_of_ne own _ _) submitted received

end

end Listens

/-! ## The end of a connection -/

/-- A client that is still there is sent the last message for a request that ended by itself. -/
def SendsDone (door : Nat → Door μ) (tok : BPETokenizer) (request : Nat) (frontend : Frontend V S μ)
    (event : Frontend.Event) : Prop :=
  event = .poll request false ∧ (frontend.connections request).stage = .reading ∧
    ((frontend.poll door tok request false).connections request).stage = .done ∧
    ((frontend.server.session.engine.requests request).finishReason = some .eos ∨
      (frontend.server.session.engine.requests request).finishReason = some .length)

def outputOf (frontend : Frontend V S μ) (request : Nat) : List Nat :=
  (frontend.server.session.engine.requests request).outputTokenIds

/-- With the last message sent, the text of the whole output has been sent. -/
def Flushed (door : Nat → Door μ) (tok : BPETokenizer) (request : Nat) (frontend : Frontend V S μ)
    (event : Frontend.Event) : Prop :=
  SendsDone door tok request frontend event →
    tok.decode (outputOf frontend request) =
      some (((frontend.poll door tok request false).connections request).sent.flatMap (door request).textOf)

/-- The text of the whole output does not end in a replacement character. -/
def Rounded (door : Nat → Door μ) (tok : BPETokenizer) (request : Nat) (frontend : Frontend V S μ)
    (event : Frontend.Event) : Prop :=
  SendsDone door tok request frontend event →
    ∃ text, tok.decode (outputOf frontend request) = some text ∧ ¬Utf8.Ragged text

/-- Besides, the tokens the connection was given spell all of it. -/
def Furnished (door : Nat → Door μ) (tok : BPETokenizer) (request : Nat) (frontend : Frontend V S μ)
    (event : Frontend.Event) : Prop :=
  SendsDone door tok request frontend event →
    ∃ text, tok.decode (outputOf frontend request) = some text ∧ ¬Utf8.Ragged text ∧
      tok.decode (frontend.server.stream request).received = some text

instance (request : Nat) (frontend : Frontend V S μ) (event : Frontend.Event) :
    Decidable (SendsDone door tok request frontend event) := inferInstanceAs (Decidable (_ ∧ _ ∧ _ ∧ _))

instance (request : Nat) (frontend : Frontend V S μ) (event : Frontend.Event) :
    Decidable (Flushed door tok request frontend event) := inferInstanceAs (Decidable (_ → _ = _))

theorem poll_done (reading : (frontend.connections req).stage = .reading)
    (done : ((frontend.poll door tok req false).connections req).stage = .done) :
    (frontend.server.stream req).queue = [] ∧ (frontend.server.stream req).finishReason.isSome ∧
      (frontend.poll door tok req false).connections req =
        (frontend.connections req).close (door req) (frontend.server.stream req) := by
  simp only [Frontend.poll, reading, if_true, setConnection, update_self, Connection.poll,
    if_neg Bool.false_ne_true] at done ⊢
  split at done
  case h_1 =>
    simp only [Connection.accept] at done
    split at done <;> simp [reading] at done
  case h_2 queued =>
    split at done
    case isTrue ended =>
      rw [queued]
      exact ⟨rfl, ended, if_pos ended⟩
    case isFalse => simp [reading] at done

structure Upholds (cfg : Config X V L S) (door : Nat → Door μ) (tok : BPETokenizer) (request : Nat)
    (frontend : Frontend V S μ) : Prop where
  tracks : Tracks cfg frontend.server
  delivers : Delivers frontend.server
  unspoiled : Unspoiled request frontend.server
  listens : Listens door tok request frontend

namespace Upholds

section

variable (upholds : Upholds cfg door tok req frontend)
include upholds

theorem step (renewed : OnServer Renewed frontend event)
    (spared : OnServer (Spares cfg req) frontend event) (went : frontend.step cfg door tok event = .ok next) :
    Upholds cfg door tok req next := by
  obtain ⟨tracks, delivers, unspoiled, listens⟩ := upholds
  have kept := @server_kept _ _ _ _ cfg _ _ _ frontend next
    (fun srv => Tracks cfg srv ∧ Delivers srv ∧ Unspoiled req srv)
    (fun srv event => Renewed srv event ∧ Spares cfg req srv event)
    (fun srv event after held met reached => by
      obtain ⟨_, afterEq, afterTracks⟩ := held.1.step event
      obtain rfl := Except.ok.inj (afterEq.symm.trans reached)
      exact ⟨afterTracks, (held.2.1.step held.1 met.1 reached).1, held.2.2.step held.1 met.2 reached⟩)
    (fun _ _ => ⟨trivial, trivial⟩) (fun _ _ => ⟨trivial, trivial⟩) event ⟨tracks, delivers, unspoiled⟩
    (by cases event with
      | server => exact ⟨renewed, spared⟩
      | attend => trivial
      | poll => trivial) went
  exact ⟨kept.1, kept.2.1, kept.2.2, listens.step tracks went⟩

theorem complete (complete : Complete frontend.server)
    (renewed : OnServer Renewed frontend event) (unsplit : OnServer (Unsplit cfg) frontend event)
    (went : frontend.step cfg door tok event = .ok next) : Complete next.server := by
  have kept := @server_kept _ _ _ _ cfg _ _ _ frontend next
    (fun srv => Tracks cfg srv ∧ Delivers srv ∧ Complete srv)
    (fun srv event => Renewed srv event ∧ Unsplit cfg srv event)
    (fun srv event after held met reached => by
      obtain ⟨_, afterEq, afterTracks⟩ := held.1.step event
      obtain rfl := Except.ok.inj (afterEq.symm.trans reached)
      obtain ⟨afterDelivers, exactly⟩ := held.2.1.step held.1 met.1 reached
      exact ⟨afterTracks, afterDelivers, (exactly held.2.2).mpr met.2⟩)
    (fun _ _ => ⟨trivial, trivial⟩) (fun _ _ => ⟨trivial, trivial⟩) event ⟨upholds.tracks, upholds.delivers, complete⟩
    (by cases event with
      | server => exact ⟨renewed, unsplit⟩
      | attend => trivial
      | poll => trivial) went
  exact kept.2.2

theorem sendsDone (sends : SendsDone door tok req frontend event) :
    ∃ part text more, FinalPart tok (frontend.server.stream req).received part text ∧
      ((frontend.poll door tok req false).connections req).sent.flatMap (door req).textOf = text ∧
      outputOf frontend req = (frontend.server.stream req).received ++ more := by
  obtain ⟨-, reading, done, -⟩ := sends
  obtain ⟨empty, -, closed⟩ := poll_done reading done
  obtain ⟨reports, produced⟩ := upholds.listens.reports reading
  obtain ⟨part, finalPart⟩ := reports.speaks.finalPart
  rw [produced] at finalPart
  have received : (frontend.server.stream req).received = given frontend.server req := by
    rw [given, empty, append_nil]
  have emitted : given frontend.server req <+: frontend.server.emittedFor req := by
    refine (upholds.delivers.within req).trans ?_
    change _ <+: tokensAmong req (_ ++ _ ++ _)
    rw [tokensAmong_append, tokensAmong_append, append_assoc]
    exact prefix_append _ _
  rw [upholds.unspoiled.emittedFor, ← received] at emitted
  obtain ⟨more, moreEq⟩ := emitted
  refine ⟨part, _, more, finalPart, ?_, moreEq.symm⟩
  rw [closed, Connection.close, flatMap_append, reports.text]
  simp [(door req).ending_silent]

theorem flushed_iff (event : Frontend.Event) :
    Flushed door tok req frontend event ↔ Furnished door tok req frontend event := by
  refine forall_congr' fun sends => ?_
  obtain ⟨_, text, _, finalPart, sent, output⟩ := upholds.sendsDone sends
  rw [sent, output]
  constructor
  · intro decoded
    exact ⟨text, decoded, finalPart.final, finalPart.complete decoded⟩
  · rintro ⟨_, decoded, final, read⟩
    rw [finalPart.eq_whole read final]
    exact decoded

theorem furnished_iff (complete : Complete frontend.server)
    (event : Frontend.Event) :
    Furnished door tok req frontend event ↔ Rounded door tok req frontend event := by
  refine forall_congr' fun sends => ?_
  obtain ⟨empty, ended, -⟩ := poll_done sends.2.1 sends.2.2.1
  have all := complete req ended
  rw [empty, append_nil, upholds.unspoiled.emittedFor] at all
  rw [all]
  constructor
  · grind
  · rintro ⟨text, decoded, final⟩
    exact ⟨text, decoded, final, decoded⟩

end

theorem new (cfg : Config X V L S) (door : Nat → Door μ) (tok : BPETokenizer) (req numBlocks : Nat)
    {size : Nat} (caching : Bool) (zero : V) (clients : Nat → Submission) (rng : S)
    (pos : 0 < size) :
    Upholds cfg door tok req (Frontend.new cfg numBlocks size caching zero clients rng) where
  tracks := .new numBlocks caching zero clients rng pos
  delivers := .new cfg numBlocks size caching zero clients rng
  unspoiled := ⟨[], fun _ => rfl, not_mem_nil⟩
  listens := ⟨fun _ => rfl, fun opened => absurd rfl opened, fun reading => by cases reading⟩

end Upholds

end Events

/-- Either front end, whatever its connections and the engine thread do, with no id used again too
early: for a request that is never thrown out, the text of the whole output has been sent with the
last message exactly if that text does not end in a replacement character and the tokens given to
the connection spell all of it, which they do unless a drain was split. -/
theorem nothing_withheld_iff {μ : Type} (cfg : Config X V L S) (door : Nat → Door μ) (tok : BPETokenizer)
    (numBlocks blockSize : Nat) (enablePrefixCache : Bool) (zero : V) (clients : Nat → Submission) (rng : S)
    (positive : 0 < blockSize) (request : Nat) (events : List Frontend.Event)
    (renewed : Along (Frontend.step cfg door tok) (OnServer Renewed)
      (Frontend.new cfg numBlocks blockSize enablePrefixCache zero clients rng) events)
    (spared : Along (Frontend.step cfg door tok) (OnServer (Spares cfg request))
      (Frontend.new cfg numBlocks blockSize enablePrefixCache zero clients rng) events) :
    (∃ frontend, (Frontend.new cfg numBlocks blockSize enablePrefixCache zero clients rng).after cfg door tok events =
      .ok frontend) ∧
      (Along (Frontend.step cfg door tok) (Flushed door tok request)
          (Frontend.new cfg numBlocks blockSize enablePrefixCache zero clients rng) events ↔
        Along (Frontend.step cfg door tok) (Furnished door tok request)
          (Frontend.new cfg numBlocks blockSize enablePrefixCache zero clients rng) events) ∧
      (Along (Frontend.step cfg door tok) (OnServer (Unsplit cfg))
          (Frontend.new cfg numBlocks blockSize enablePrefixCache zero clients rng) events →
        (Along (Frontend.step cfg door tok) (Flushed door tok request)
            (Frontend.new cfg numBlocks blockSize enablePrefixCache zero clients rng) events ↔
          Along (Frontend.step cfg door tok) (Rounded door tok request)
            (Frontend.new cfg numBlocks blockSize enablePrefixCache zero clients rng) events)) := by
  have initially := Upholds.new cfg door tok request numBlocks enablePrefixCache zero clients rng positive
  have exactly := along_congr (fun _ _ _ held met stepped => Upholds.step held met.1 met.2 stepped)
    (fun _ event held => held.flushed_iff event) initially (renewed.and spared)
  refine ⟨?_, exactly, fun unsplit => exactly.trans ?_⟩
  · obtain ⟨frontend, ran, -⟩ := run_total_along (fun state event held met => by
      obtain ⟨next, stepped⟩ := frontend_step_ok held.tracks event
      exact ⟨next, stepped, Upholds.step held met.1 met.2 stepped⟩) initially (renewed.and spared)
    exact ⟨frontend, ran⟩
  · refine @along_congr _ _ _ _ (fun frontend => Upholds cfg door tok request frontend ∧ Complete frontend.server) _ _ _
      ?_ (fun _ event held => held.1.furnished_iff held.2 event) _ _ ⟨initially, ?_⟩ ((renewed.and spared).and unsplit)
    · exact fun _ _ _ held met stepped =>
        ⟨held.1.step met.1.1 met.1.2 stepped, held.1.complete held.2 met.1.1 met.2 stepped⟩
    · exact fun request done => absurd done (by simp [Frontend.new, AsyncEngine.new])

/-- The counting model goes on with the token after this one. -/
def following (token maxTokens : Nat) : Nat → Submission := fun _ =>
  { promptTokenIds := [token], params := { maxTokens }, requestId := "ours", nonempty := cons_ne_nil _ _ }

/-- A server with one request to come, for the counting model. -/
abbrev solo {μ : Type} (token maxTokens : Nat) : Frontend Nat Unit μ :=
  .new counting 12 1 true 0 (following token maxTokens) ()

/-- Request 0 served to its end in one step, with its connection reading. -/
def alone : List Frontend.Event :=
  [.server (.submit 0 false), .server (.fanout []), .attend 0, .server (.thread .take), .server (.thread .apply),
    .server (.thread .admitRequests), .server (.thread .emit), .server (.thread .report), .server (.thread .decode),
    .server (.thread .emit), .server (.thread .report), .server (.thread .rest), .server (.fanout []),
    .poll 0 false, .poll 0 false, .poll 0 false]

theorem nothing_withheld_iff_alone :
    0 < 1 ∧
      Along (Frontend.step counting (fun _ => .generate 0) halves) (OnServer Renewed)
        (solo 96 2) alone ∧
      Along (Frontend.step counting (fun _ => .generate 0) halves) (OnServer (Spares counting 0))
        (solo 96 2) alone ∧
      ((∃ frontend, (solo 96 2).after counting (fun _ => .generate 0)
          halves alone = .ok frontend) ∧
        (Along (Frontend.step counting (fun _ => .generate 0) halves) (Flushed (fun _ => .generate 0) halves 0)
            (solo 96 2) alone ↔
          Along (Frontend.step counting (fun _ => .generate 0) halves) (Furnished (fun _ => .generate 0) halves 0)
            (solo 96 2) alone) ∧
        (Along (Frontend.step counting (fun _ => .generate 0) halves) (OnServer (Unsplit counting))
            (solo 96 2) alone →
          (Along (Frontend.step counting (fun _ => .generate 0) halves) (Flushed (fun _ => .generate 0) halves 0)
              (solo 96 2) alone ↔
            Along (Frontend.step counting (fun _ => .generate 0) halves) (Rounded (fun _ => .generate 0) halves 0)
              (solo 96 2) alone))) ∧
      Yields ((solo 96 2).after counting (fun _ => .generate 0) halves alone)
        (fun frontend => outputOf frontend 0 = [97, 98] ∧ (frontend.connections 0).sent =
          [.token { text := ['a'], tokenId := 97, index := 0 }, .token { text := ['b'], tokenId := 98, index := 1 },
            .finish { reason := .length, outputTokens := 2 }]) := by
  have renewed : Along (Frontend.step counting (fun _ => .generate 0) halves) (OnServer Renewed)
      (solo 96 2) alone := by decide +kernel
  have spared : Along (Frontend.step counting (fun _ => .generate 0) halves) (OnServer (Spares counting 0))
      (solo 96 2) alone := by decide +kernel
  exact ⟨Nat.one_pos, renewed, spared,
    nothing_withheld_iff counting (fun _ => .generate 0) halves 12 1 true 0 (following 96 2) () Nat.one_pos 0 alone
      renewed spared, by decide +kernel⟩

/-- The only token is an `a` and the first half of a character. -/
theorem held_back_text_never_sent :
    ¬Along (Frontend.step counting (fun _ => .tokenStream "ours") halves) (Flushed (fun _ => .tokenStream "ours") halves 0)
        (solo 255 1) alone ∧
      Along (Frontend.step counting (fun _ => .tokenStream "ours") halves) (OnServer (Spares counting 0))
        (solo 255 1) alone ∧
      Yields ((solo 255 1).after counting (fun _ => .tokenStream "ours")
        halves alone) (fun frontend =>
          halves.decode (outputOf frontend 0) = some ['a', Utf8.replacement] ∧
          (frontend.connections 0).sent = [.start "ours", .done "ours" .length 1]) ∧
      Yields ((solo 255 1).after counting (fun _ => .generate 0) halves alone)
        (fun frontend =>
          halves.decode (outputOf frontend 0) = some ['a', Utf8.replacement] ∧
          (frontend.connections 0).sent = [.finish { reason := .length, outputTokens := 1 }]) := by
  decide +kernel

end Nanoserve.Verified
