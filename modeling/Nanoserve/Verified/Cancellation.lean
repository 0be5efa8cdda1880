import Nanoserve.Verified.EngineThread

/-! # Whom a cancellation hits

A cancellation is an id in a set, and the engine thread applies the set later.
-/

namespace Nanoserve.Verified

open Engine Lib
open ContinuousBatchingEngine

variable {X V L S : Type} {cfg : Config X V L S} {srv next : AsyncEngine V S}

/-- A cancellation of the request's id is requested at some point of the run. -/
def Asked (cfg : Config X V L S) (start : AsyncEngine V S) (events : List AsyncEngine.Event) (request : Nat) : Prop :=
  Sometime (AsyncEngine.step cfg)
    (fun server event => event = .cancel (server.requestId request) ∧ request ∈ server.session.submitted) start events

instance (cfg : Config X V L S) (start : AsyncEngine V S) (events : List AsyncEngine.Event) (request : Nat) :
    Decidable (Asked cfg start events request) :=
  inferInstanceAs (Decidable (Sometime _ _ _ _))

/-- No request is submitted while a cancellation of its id is pending, with the event loop or with
the thread. -/
def Clear (server : AsyncEngine V S) : AsyncEngine.Event → Prop
  | .submit request _ => request ∉ server.session.submitted →
    server.requestId request ∉ server.session.engine.cancelRequested ∧ server.requestId request ∉ server.wanted
  | _ => True

instance (server : AsyncEngine V S) : (event : AsyncEngine.Event) → Decidable (Clear server event)
  | .submit _ _ => inferInstanceAs (Decidable (_ → _))
  | .thread _ | .cancel _ | .fanout _ | .get _ | .release _ => .isTrue trivial

/-! ## The invariant -/

structure Warranted (asked : Nat → Prop) (server : AsyncEngine V S) : Prop where
  cancelled : ∀ request, (server.session.engine.requests request).finishReason = some .cancelled → asked request
  pending : ∀ request ∈ server.session.submitted,
    server.requestId request ∈ server.session.engine.cancelRequested ∨ server.requestId request ∈ server.wanted →
      asked request

namespace Warranted

variable {asked more : Nat → Prop}

section

variable (warranted : Warranted asked srv)
include warranted

theorem mono (implies : ∀ req, asked req → more req) :
    Warranted more srv :=
  ⟨fun req cancelled => implies req (warranted.cancelled req cancelled),
    fun req known pending => implies req (warranted.pending req known pending)⟩

theorem threadMoves (moves : ThreadMoves srv next) : Warranted asked next := by
  cases moves with
  | stay => exact warranted
  | take => exact ⟨warranted.cancelled, fun req known pending =>
      warranted.pending req known (pending.elim (fun none => absurd none List.not_mem_nil) .inl)⟩
  | work eng stage _ _ clients _ wanted cancels =>
    constructor
    · intro req cancelled
      cases cancels req cancelled with
      | inl already => exact warranted.cancelled req already
      | inr hit => exact warranted.pending req hit.1 (.inr hit.2)
    · intro req known pending
      have same : (srv.put eng stage).requestId req = srv.requestId req := (clients req).requestId
      rw [same] at pending
      exact warranted.pending req known (pending.imp_right fun mem => wanted mem)
  | emit => exact ⟨warranted.cancelled, warranted.pending⟩
  | report => exact ⟨warranted.cancelled, warranted.pending⟩
  | rest => exact ⟨warranted.cancelled, warranted.pending⟩

theorem submit {req : Nat} {late : Bool}
    (clear : Clear srv (.submit req late)) : Warranted asked (srv.submit cfg req late) := by
  by_cases new : req ∈ srv.session.submitted
  · rw [submit_again late new]
    exact warranted
  · obtain ⟨_, _⟩ := clear new
    have submits := @submit_new _ _ _ _ cfg srv req late new
    constructor
    · exact fun other cancelled => warranted.cancelled other (submits.cancelled other cancelled)
    · intro other known pending
      rw [submits.requestId, submits.cancelRequested, submits.wanted] at pending
      rw [submits.submitted] at known
      cases List.mem_append.mp known with
      | inl old => exact warranted.pending other old pending
      | inr => grind

theorem fanoutEmitted : Warranted asked srv.fanoutEmitted := by
  rw [fanoutEmitted_eq]
  exact ⟨warranted.cancelled, warranted.pending⟩

theorem fanoutFinished : Warranted asked srv.fanoutFinished := by
  obtain ⟨_, fanned, -⟩ := fanoutFinished_eq srv
  rw [fanned]
  exact ⟨warranted.cancelled, warranted.pending⟩

theorem step (tracks : Tracks cfg srv) {event : AsyncEngine.Event}
    (clear : Clear srv event) (implies : ∀ req, asked req → more req)
    (asks : ∀ req, event = .cancel (srv.requestId req) → req ∈ srv.session.submitted → more req)
    (went : AsyncEngine.step cfg srv event = .ok next) : Warranted more next := by
  have kept := warranted.mono implies
  cases event with
  | thread event =>
    obtain ⟨_, movedEq, -, moves⟩ := tracks.threadStep event
    obtain rfl := Except.ok.inj (movedEq.symm.trans went)
    exact kept.threadMoves moves
  | submit =>
    obtain rfl := Except.ok.inj went
    exact kept.submit clear
  | cancel =>
    obtain rfl := Except.ok.inj went
    refine ⟨kept.cancelled, fun req known pending => ?_⟩
    obtain added | taken := pending
    · cases List.mem_insert_iff.mp added with
      | inl named => exact asks req (congrArg AsyncEngine.Event.cancel named.symm) known
      | inr earlier => exact kept.pending req known (.inl earlier)
    · exact kept.pending req known (.inr taken)
  | fanout between =>
    obtain ⟨_, ran, -, middleKept⟩ := tracks.halfway
      (fun _ _ _ moves held => held.threadMoves moves) kept.fanoutEmitted between
    simp only [AsyncEngine.step, ran, Except.ok.injEq] at went
    rw [← went]
    exact middleKept.fanoutFinished
  | get =>
    obtain rfl := Except.ok.inj went
    unfold AsyncEngine.get
    split
    · exact kept
    · exact ⟨kept.cancelled, kept.pending⟩
  | release =>
    obtain rfl := Except.ok.inj went
    exact ⟨kept.cancelled, kept.pending⟩

end

end Warranted

/-- Any events, with the thread anywhere in its step: if no request comes under an id whose
cancellation is still pending, whoever ends as cancelled was asked to after it came. -/
theorem cancelled_only_if_asked (cfg : Config X V L S) (numBlocks blockSize : Nat) (enablePrefixCache : Bool) (zero : V)
    (clients : Nat → Submission) (rng : S) (positive : 0 < blockSize) (events : List AsyncEngine.Event)
    (clear : Along (AsyncEngine.step cfg) Clear
      (AsyncEngine.new cfg numBlocks blockSize enablePrefixCache zero clients rng) events) :
    Yields ((AsyncEngine.new cfg numBlocks blockSize enablePrefixCache zero clients rng).after cfg events) fun server =>
      ∀ request, (server.session.engine.requests request).finishReason = some .cancelled →
        Asked cfg (AsyncEngine.new cfg numBlocks blockSize enablePrefixCache zero clients rng) events request := by
  have initially : Tracks cfg (AsyncEngine.new cfg numBlocks blockSize enablePrefixCache zero clients rng) :=
    .new numBlocks enablePrefixCache zero clients rng positive
  refine Yields.mono (@run_total_history _ _ _ _
    (fun past server => Tracks cfg server ∧ Warranted (Asked cfg _ past) server) Clear _ ?_ events ?_ clear)
    fun server held => held.2.cancelled
  · rintro past server event ran ⟨tracks, warranted⟩ met
    obtain ⟨next, stepped, nextTracks⟩ := tracks.step event
    refine ⟨next, stepped, nextTracks, warranted.step tracks met ?_ ?_ stepped⟩
    · exact fun request before => (sometime_append_singleton ran).mpr (.inl before)
    · exact fun request named known => (sometime_append_singleton ran).mpr (.inr ⟨named, known⟩)
  · refine ⟨initially, fun request cancelled => ?_, fun request known => absurd known List.not_mem_nil⟩
    simp [AsyncEngine.new, Session.new, Submission.request] at cancelled

/-- Requests 0 and 1 come under the same id, request 2 keeps the engine busy. -/
def reusing : Nat → Submission
  | 0 => { promptTokenIds := [5], params := { maxTokens := 1 }, requestId := "job", nonempty := five_ne_nil }
  | 1 => { promptTokenIds := [5], params := { maxTokens := 4 }, requestId := "job", nonempty := five_ne_nil }
  | _ => { promptTokenIds := [5], params := { maxTokens := 4 }, requestId := "other", nonempty := five_ne_nil }

abbrev reused : AsyncEngine Nat Unit := .new counting 12 1 true 0 reusing ()

/-- Request 0 runs to its end; the client of request 1 hangs up. -/
def hangUp : List AsyncEngine.Event :=
  [.submit 0 false, .fanout [], .thread .take, .thread .apply, .thread .admitRequests, .thread .emit, .thread .report,
    .thread .rest, .fanout [], .get 0, .release "job", .submit 1 false, .fanout [.take], .cancel "job",
    .thread .apply, .thread .admitRequests, .thread .emit, .thread .decode, .fanout [.emit, .rest], .thread .take,
    .thread .apply, .thread .report, .fanout []]

theorem cancelled_only_if_asked_hangUp :
    0 < 1 ∧ Along (AsyncEngine.step counting) Clear reused hangUp ∧
      Yields (reused.after counting hangUp) (fun server =>
        ∀ request, (server.session.engine.requests request).finishReason = some .cancelled →
          Asked counting reused hangUp request) ∧
      Yields (reused.after counting hangUp) (fun server =>
        (server.session.engine.requests 0).finishReason = some .length ∧
          (server.session.engine.requests 1).finishReason = some .cancelled) := by
  have clear : Along (AsyncEngine.step counting) Clear reused hangUp := by
    decide +kernel
  exact ⟨Nat.one_pos, clear, cancelled_only_if_asked counting 12 1 true 0 reusing () Nat.one_pos hangUp clear,
    by decide +kernel⟩

/-- Request 0 has ended and its connection posts the cancellation of every exit path while a step
for request 2 is going on. -/
def staleCancel : List AsyncEngine.Event :=
  [.submit 0 false, .fanout [], .thread .take, .thread .apply, .thread .admitRequests, .thread .emit, .thread .report,
    .thread .rest, .fanout [], .get 0, .submit 2 false, .fanout [], .thread .take, .thread .apply, .thread .admitRequests,
    .cancel "job", .fanout [], .release "job", .submit 1 false, .fanout [], .thread .emit, .thread .decode,
    .thread .emit, .thread .rest, .fanout [], .thread .take, .thread .apply, .thread .report, .fanout []]

/-- Nobody asked for request 1. -/
theorem stale_cancel_hits_successor :
    Yields (reused.after counting staleCancel) (fun server =>
      (server.session.engine.requests 0).finishReason = some .length ∧
        (server.session.engine.requests 1).finishReason = some .cancelled) ∧
      ¬Asked counting reused staleCancel 1 := by
  decide +kernel

end Nanoserve.Verified
