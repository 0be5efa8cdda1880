import Nanoserve.Verified.Faithful
import Nanoserve.Verified.Streaming

/-! # One call on a replica

What a call of `Generate` has read from its queue are the first tokens the engine emitted for its
request.
-/

namespace Nanoserve.Verified

open Engine Lib Proto Function Dict List
open Model (BPETokenizer Text)
open PrefixCache (hashChain)

variable {X V L S : Type} {cfg : Config X V L S} {tok : BPETokenizer} {inc : Nat → Incoming}

def routed (replica : Replica V S) (entries : List (Nat × Nat)) (call : Nat) : List Nat :=
  (entries.filter fun entry =>
    replica.streams.get? (replica.session.engine.requests entry.1).requestId = some call).map Prod.snd

theorem foldl_deliver (entries : List (Nat × Nat)) (rep : Replica V S) :
    entries.foldl Replica.deliver rep =
      { rep with
        rpcs := fun call =>
          { rep.rpcs call with queue := (rep.rpcs call).queue ++ routed rep entries call } } := by
  induction entries generalizing rep with
  | nil => simp [routed]
  | cons entry _ ih =>
    rw [foldl_cons, ih]
    cases found : rep.streams.get? (rep.session.engine.requests entry.1).requestId with
    | none => simp [Replica.deliver, routed, found]
    | some target =>
      simp only [Replica.deliver, found, Replica.set, Replica.mk.injEq, true_and]
      funext call
      by_cases here : call = target
      · subst here
        simp [routed, found]
      · have differs : ¬target = call := fun same => here same.symm
        simp [routed, found, update_of_ne here, differs]

theorem foldl_signal (requests : List Nat) (rep : Replica V S) :
    ∃ reasons : Nat → Option FinishReason, requests.foldl Replica.signal rep =
      { rep with rpcs := fun call => { rep.rpcs call with finishReason := reasons call } } := by
  induction requests generalizing rep with
  | nil => exact ⟨fun call => (rep.rpcs call).finishReason, rfl⟩
  | cons req _ ih =>
    obtain ⟨reasons, rest⟩ := ih (rep.signal req)
    refine ⟨reasons, ?_⟩
    rw [foldl_cons, rest]
    simp only [Replica.signal]
    split
    case h_1 target reason _ _ =>
      simp only [Replica.set, Replica.mk.injEq, true_and]
      funext call
      by_cases here : call = target
      · subst here
        simp
      · simp [update_of_ne here]
    case h_2 => rfl

def drained (session : Session V S) : Session V S :=
  { session with
    engine := { session.engine with emitted := [], newlyFinished := [] }
    drainedEmitted := session.drainedEmitted ++ session.engine.emitted
    drainedFinished := session.drainedFinished ++ session.engine.newlyFinished }

theorem fanout_eq (rep : Replica V S) :
    ∃ reasons : Nat → Option FinishReason, rep.fanout =
      { rep with
        session := drained rep.session
        rpcs := fun call =>
          { rep.rpcs call with
            queue := (rep.rpcs call).queue ++ routed rep rep.session.engine.emitted call
            finishReason := reasons call } } := by
  simp only [Replica.fanout, ContinuousBatchingEngine.drainEmitted, ContinuousBatchingEngine.drainFinished, foldl_deliver]
  obtain ⟨reasons, signalled⟩ := foldl_signal rep.session.engine.newlyFinished
    { rep with
      session := drained rep.session
      rpcs := fun call =>
        { rep.rpcs call with
          queue := (rep.rpcs call).queue ++ routed rep rep.session.engine.emitted call } }
  exact ⟨reasons, signalled⟩

/-- The session is one the engine gets to from `start`, and `ours` was never thrown out on the way. -/
def Linked (cfg : Config X V L S) (start : Machine V S) (ours : Nat) (session : Session V S) : Prop :=
  ∃ machine : Machine V S, machine.session = session ∧ machine.pending = [] ∧ Reaches cfg start machine ∧
    ours ∉ machine.discarded.map Prod.fst

namespace Linked

variable {start : Machine V S} {ours : Nat} {sess : Session V S}

section

variable (linked : Linked cfg start ours sess)
include linked

theorem call (stock : Stock cfg start) {call : Call}
    (kept : victimOf cfg sess call ≠ some ours) :
    ∃ next, sess.call cfg call = .ok next ∧ Linked cfg start ours next := by
  obtain ⟨m, rfl, idle, steps, absent⟩ := linked
  obtain ⟨next, called, nextIdle, more, names⟩ := call_steps (stock.reaches steps) idle call
  refine ⟨next.session, called, next, rfl, nextIdle, steps.trans more, ?_⟩
  rw [names, mem_append, Option.mem_toList]
  exact not_or.mpr ⟨absent, kept⟩

theorem drained : Linked cfg start ours (drained sess) := by
  obtain ⟨m, rfl, idle, steps, absent⟩ := linked
  have first := Relation.ReflTransGen.tail steps (.drainEmitted m)
  refine ⟨_, ?_, ?_, first.tail (.drainFinished _), ?_⟩
  · rfl
  · exact idle
  · exact absent

theorem requestId (req : Nat) :
    (sess.engine.requests req).requestId = (start.engine.requests req).requestId := by
  obtain ⟨m, rfl, -, steps, -⟩ := linked
  exact (steps.sameClient req).requestId

theorem emittedFor (stock : Stock cfg start)
    (streamed : start.ledger.Streamed) : sess.emittedFor ours = (sess.engine.requests ours).outputTokenIds := by
  obtain ⟨m, rfl, -, steps, absent⟩ := linked
  have here : m.session.emittedFor ours =
      m.ledger.discardedFor ours ++ (m.engine.requests ours).outputTokenIds :=
    (steps.ledgerSteps stock).streamed streamed ours
  rw [here, discardedFor_eq_nil absent, nil_append]

theorem emittedFor_eq_nil (stock : Stock cfg start)
    (streamed : start.ledger.Streamed) (orderly : Orderly cfg.maxBatchSize start.ledger) (fresh : start.ledger.Fresh)
    (unknown : ours ∉ sess.submitted) : sess.emittedFor ours = [] := by
  rw [linked.emittedFor stock streamed]
  obtain ⟨m, rfl, -, steps, -⟩ := linked
  have ledgerSteps := steps.ledgerSteps stock
  have nowhere := (orderly.steps ledgerSteps).partition ours
  rw [count_eq_zero.mpr (show ours ∉ m.ledger.submitted from unknown)] at nowhere
  simp only [Ledger.standing, Nat.add_eq_zero_iff, count_eq_zero] at nowhere
  exact ledgerSteps.fresh fresh ours nowhere.1.2 nowhere.2

end

end Linked

def drainedFor (session : Session V S) (request : Nat) : List Nat :=
  (session.drainedEmitted.filter fun entry => entry.1 = request).map Prod.snd

theorem drainedFor_extends (sess : Session V S) (req : Nat) :
    drainedFor sess req <+: sess.emittedFor req := by
  simp only [drainedFor, Session.emittedFor, filter_append, map_append]
  exact prefix_append _ _

theorem drainedFor_drained (sess : Session V S) (req : Nat) :
    drainedFor (drained sess) req = sess.emittedFor req := rfl

theorem drainedEmitted_call {sess next : Session V S} {call : Call} (called : sess.call cfg call = .ok next)
    (other : call ≠ .drainEmitted) : next.drainedEmitted = sess.drainedEmitted := by
  cases call with
  | drainEmitted => exact absurd rfl other
  | applyCancellations | cancel requestId | step | clearPrefixCache =>
    simp only [Session.call] at called
    split at called
    · cases called
    · cases called
      rfl
  | addRequest req late | requestCancel requestId | drainFinished =>
    cases called
    rfl

/-! ## The call -/

def heard (rpc : Rpc) : List Nat := rpc.cursor.produced ++ rpc.queue

structure Saying (tok : BPETokenizer) (base : Nat) (rpc : Rpc) : Prop where
  untouched : rpc.stage = .absent → heard rpc = []
  read : readTokens tok {} rpc.cursor.produced = some rpc.cursor
  tokens : tokensOf rpc.yielded = rpc.cursor.tokens base

theorem Saying.new (base : Nat) : Saying tok base {} := ⟨fun _ => rfl, rfl, rfl⟩

theorem Saying.answer {base : Nat} {rpc : Rpc} (saying : Saying tok base rpc) {finish : Finish} {stage : Stage}
    (present : stage ≠ .absent) : Saying tok base (rpc.yield [.finish finish] stage) where
  untouched absent := absurd absent present
  read := saying.read
  tokens := by simpa [Rpc.yield] using saying.tokens

theorem tokens_snoc (base : Nat) (cursor : Cursor) (produced : List Nat) (chars tokenId : Nat) (text : Text) :
    Cursor.tokens base ⟨produced, chars, cursor.emitted ++ [(tokenId, text)]⟩ =
      cursor.tokens base ++ [{ text, tokenId, index := base + cursor.emitted.length }] := by
  simp [Cursor.tokens, mapIdx_append]

theorem loop_present {base : Nat} {rpc : Rpc} (streaming : rpc.stage = .streaming) (cancelled : Bool) :
    (rpc.loop tok base cancelled).stage ≠ .absent := by
  simp only [Rpc.loop]
  split
  · simp [Rpc.yield]
  · split
    · simp only [Rpc.accept]
      split <;> simp [streaming]
    · split
      · simp [Rpc.yield]
      · simp [streaming]

theorem Saying.loop {base : Nat} {rpc : Rpc} (saying : Saying tok base rpc) (streaming : rpc.stage = .streaming)
    (cancelled : Bool) :
    Saying tok base (rpc.loop tok base cancelled) ∧ (rpc.loop tok base cancelled).cursor.produced <+: heard rpc ∧
      ((rpc.loop tok base cancelled).stage = .streaming → heard (rpc.loop tok base cancelled) = heard rpc) := by
  have unread : rpc.cursor.produced <+: heard rpc := prefix_append _ _
  simp only [Rpc.loop]
  split
  · exact ⟨saying.answer (by simp), unread, fun stays => by simp [Rpc.yield] at stays⟩
  · split
    case h_1 tokenId queue queueEq =>
      have readOne : heard rpc = (rpc.cursor.produced ++ [tokenId]) ++ queue := by simp [heard, queueEq]
      simp only [Rpc.accept]
      split
      case h_1 => exact ⟨⟨fun absent => by simp at absent, saying.read, saying.tokens⟩, unread, by simp⟩
      case h_2 next accepted =>
        have run := readTokens_snoc saying.read accepted
        obtain ⟨text, -, ⟨-, -, none, -⟩ | ⟨-, -, rfl⟩⟩ := accept_cases accepted
        · cases none
        · refine ⟨⟨fun absent => ?_, run, saying.tokens⟩, ?_, fun _ => readOne.symm⟩
          · simp [streaming] at absent
          · rw [readOne]
            exact prefix_append _ _
      case h_3 next text accepted =>
        have run := readTokens_snoc saying.read accepted
        obtain ⟨whole, -, ⟨-, -, piece, rfl⟩ | ⟨-, none, -⟩⟩ := accept_cases accepted
        · obtain rfl := Option.some.inj piece
          refine ⟨⟨fun absent => ?_, run, ?_⟩, ?_, fun _ => readOne.symm⟩
          · simp [streaming] at absent
          · simp only [tokensOf_append, saying.tokens, tokens_snoc, tokensOf_token, tokensOf_nil]
          · rw [readOne]
            exact prefix_append _ _
        · cases none
    case h_2 =>
      split
      · exact ⟨saying.answer (by simp), unread, fun stays => by simp [Rpc.yield] at stays⟩
      · exact ⟨saying, unread, fun _ => rfl⟩

/-- What a call has read and said, and what the engine has emitted for it. -/
structure Attached (cfg : Config X V L S) (tok : BPETokenizer) (incoming : Nat → Incoming) (start : Machine V S)
    (ours : Nat) (replica : Replica V S) : Prop where
  linked : Linked cfg start ours replica.session
  inflight : ∀ key call, replica.inflight.get? key = some call →
    (incoming call).reqId = key ∧ (replica.rpcs call).stage ≠ .absent
  streams : ∀ key call, replica.streams.get? key = some call →
    (incoming call).reqId = key ∧ (replica.rpcs call).stage ≠ .absent
  distinct : replica.session.submitted.Nodup
  arrived : ∀ call ∈ replica.session.submitted, (replica.rpcs call).stage ≠ .absent
  saying : Saying tok (incoming ours).base (replica.rpcs ours)
  taken : (replica.rpcs ours).cursor.produced <+: drainedFor replica.session ours
  streaming : (replica.rpcs ours).stage = .streaming → replica.streams.get? (incoming ours).reqId = some ours ∧
    heard (replica.rpcs ours) = drainedFor replica.session ours

namespace Attached

variable {start : Machine V S} {ours : Nat} {rep : Replica V S}

theorem set (attached : Attached cfg tok inc start ours rep) {call : Nat} {rpc : Rpc}
    (present : rpc.stage ≠ .absent)
    (saying : call = ours → Saying tok (inc ours).base rpc)
    (taken : call = ours → rpc.cursor.produced <+: drainedFor rep.session ours)
    (streaming : call = ours → rpc.stage = .streaming →
      rep.streams.get? (inc ours).reqId = some ours ∧ heard rpc = drainedFor rep.session ours) :
    Attached cfg tok inc start ours (rep.set call rpc) := by
  have stages : ∀ number, (rep.rpcs number).stage ≠ .absent →
      ((rep.set call rpc).rpcs number).stage ≠ .absent := by
    intro number before
    by_cases here : number = call
    · subst here
      simpa [Replica.set] using present
    · simpa [Replica.set, update_of_ne here] using before
  have oursEq : (rep.set call rpc).rpcs ours = if call = ours then rpc else rep.rpcs ours := by
    by_cases same : call = ours
    · simp [Replica.set, same]
    · rw [if_neg same]
      exact update_of_ne (Ne.symm same) _ _
  refine ⟨attached.linked, fun key number found => (attached.inflight key number found).imp_right (stages _),
    fun key number found => (attached.streams key number found).imp_right (stages _), attached.distinct,
    fun number mem => stages number (attached.arrived number mem), ?_, ?_, ?_⟩ <;> rw [oursEq] <;> split
  · exact saying ‹_›
  · exact attached.saying
  · exact taken ‹_›
  · exact attached.taken
  · exact streaming ‹_›
  · exact attached.streaming

theorem answer (attached : Attached cfg tok inc start ours rep) (call : Nat) (finish : Finish) :
    Attached cfg tok inc start ours (rep.set call ((rep.rpcs call).yield [.finish finish] .ended)) := by
  refine attached.set (by simp [Rpc.yield]) ?_ ?_ ?_
  · rintro rfl
    exact attached.saying.answer (by simp)
  · rintro rfl
    exact attached.taken
  · rintro rfl stays
    simp [Rpc.yield] at stays

theorem onEngine (attached : Attached cfg tok inc start ours rep) (stock : Stock cfg start) {call : Call}
    (kept : victimOf cfg rep.session call ≠ some ours) (nobody : added [call] = [])
    (other : call ≠ .drainEmitted) :
    ∃ next, rep.onEngine cfg call = .ok next ∧ Attached cfg tok inc start ours next := by
  obtain ⟨sess, called, linked⟩ := attached.linked.call stock kept
  have submitted : sess.submitted = rep.session.submitted := by
    rw [submitted_call called, nobody, append_nil]
  have drainedSame : drainedFor sess ours = drainedFor rep.session ours := by
    simp only [drainedFor, drainedEmitted_call called other]
  refine ⟨{ rep with session := sess }, by simp only [Replica.onEngine, called], ?_⟩
  refine ⟨linked, attached.inflight, attached.streams, ?_, ?_, attached.saying, ?_, ?_⟩
  · simp only [submitted]
    exact attached.distinct
  · simp only [submitted]
    exact attached.arrived
  · simp only [drainedSame]
    exact attached.taken
  · simp only [drainedSame]
    exact attached.streaming

section Alone

-- No other call carries the id of ours.
variable (alone : ∀ call, call ≠ ours → (inc call).reqId ≠ (inc ours).reqId)
  (named : ∀ req, (start.engine.requests req).requestId = (inc req).reqId)

variable (attached : Attached cfg tok inc start ours rep)
include alone named attached

theorem routed_eq
    (registered : rep.streams.get? (inc ours).reqId = some ours) (entries : List (Nat × Nat)) :
    routed rep entries ours = (entries.filter fun entry => entry.1 = ours).map Prod.snd := by
  have same : (fun entry : Nat × Nat => decide (rep.streams.get?
      (rep.session.engine.requests entry.1).requestId = some ours)) = fun entry => decide (entry.1 = ours) := by
    funext entry
    rw [attached.linked.requestId, named, decide_eq_decide]
    constructor
    · intro found
      by_contra differs
      exact alone entry.1 differs (attached.streams _ _ found).1.symm
    · rintro rfl
      exact registered
  rw [routed, same]

omit alone named in
theorem routed_absent
    (absent : (rep.rpcs ours).stage = .absent) (entries : List (Nat × Nat)) : routed rep entries ours = [] := by
  rw [routed, map_eq_nil_iff, filter_eq_nil_iff]
  intro entry _ found
  exact (attached.streams _ _ (of_decide_eq_true found)).2 absent

theorem fanout :
    Attached cfg tok inc start ours rep.fanout := by
  obtain ⟨reasons, eq⟩ := fanout_eq rep
  rw [eq]
  have grows := drainedFor_extends rep.session ours
  refine ⟨attached.linked.drained, attached.inflight, attached.streams, attached.distinct, attached.arrived, ?_, ?_, ?_⟩
  · refine ⟨fun absent => ?_, attached.saying.read, attached.saying.tokens⟩
    have nothing := attached.saying.untouched absent
    simp only [heard, attached.routed_absent absent, append_nil] at nothing ⊢
    exact nothing
  · exact attached.taken.trans grows
  · intro streaming
    obtain ⟨registered, all⟩ := attached.streaming streaming
    refine ⟨registered, ?_⟩
    have more : heard (rep.rpcs ours) ++ routed rep rep.session.engine.emitted ours =
        rep.session.emittedFor ours := by
      rw [all, attached.routed_eq alone named registered]
      simp [drainedFor, Session.emittedFor]
    simpa [heard, drainedFor_drained, append_assoc] using more

omit named in
theorem unregister {call : Nat} {rpc : Rpc}
    (present : rpc.stage ≠ .absent) (gone : rpc.stage ≠ .streaming)
    (saying : call = ours → Saying tok (inc ours).base rpc)
    (taken : call = ours → rpc.cursor.produced <+: drainedFor rep.session ours) :
    Attached cfg tok inc start ours ((rep.unregister inc call).set call rpc) := by
  have moved := attached.set present saying taken fun _ stays => absurd stays gone
  refine ⟨moved.linked, ?_, ?_, moved.distinct, moved.arrived, moved.saying, moved.taken, ?_⟩
  · intro key number found
    simp only [Replica.unregister, Replica.set, get?_erase] at found
    split at found
    · cases found
    · exact moved.inflight key number found
  · intro key number found
    simp only [Replica.unregister, Replica.set, get?_erase] at found
    split at found
    · cases found
    · exact moved.streams key number found
  · intro stays
    obtain ⟨registered, all⟩ := moved.streaming stays
    refine ⟨?_, all⟩
    have differs : call ≠ ours := by
      rintro rfl
      simp [Replica.set, Replica.unregister, gone] at stays
    simp only [Replica.unregister, Replica.set, get?_erase]
    rw [if_neg (alone call differs).symm]
    exact registered

section Events

variable (stock : Stock cfg start) (streamed : start.ledger.Streamed)
  (orderly : Orderly cfg.maxBatchSize start.ledger) (fresh : start.ledger.Fresh)

include stock streamed orderly fresh

theorem submit {call : Nat}
    (absent : (rep.rpcs call).stage = .absent) (late : Bool) :
    ∃ next, rep.submit cfg inc call late = .ok next ∧ Attached cfg tok inc start ours next := by
  have unknown := fun known => attached.arrived call known absent
  -- Nothing was emitted for a request before it is submitted.
  have nothing : call = ours → drainedFor rep.session ours = [] := by
    rintro rfl
    have none := attached.linked.emittedFor_eq_nil stock streamed orderly fresh unknown
    exact prefix_nil.mp (none ▸ drainedFor_extends rep.session call)
  obtain ⟨sess, called, linked⟩ := attached.linked.call stock
    (show victimOf cfg rep.session (.addRequest call late) ≠ some ours by simp [victimOf])
  have submitted : sess.submitted = rep.session.submitted ++ [call] := submitted_call called
  have drainedSame : drainedFor sess ours = drainedFor rep.session ours := by
    simp only [drainedFor, drainedEmitted_call called (by simp)]
  let rpc : Rpc := { rep.rpcs call with stage := .streaming }
  have quiet : call = ours → heard rpc = [] := by
    rintro rfl
    exact attached.saying.untouched absent
  have handed : Attached cfg tok inc start ours { rep.register inc call with session := sess } := by
    have stages : ∀ number, (number = call ∨ (rep.rpcs number).stage ≠ .absent) →
        ((rep.register inc call).rpcs number).stage ≠ .absent := by
      intro number known
      by_cases here : number = call
      · simp [Replica.register, Replica.set, here]
      · simpa [Replica.register, Replica.set, update_of_ne here] using known.resolve_left here
    refine ⟨linked, ?_, ?_, ?_, ?_, ?_, ?_, ?_⟩
    · intro key number found
      simp only [Replica.register, Replica.set, get?_set] at found
      split at found
      case isTrue same =>
        obtain rfl := Option.some.inj found
        exact ⟨same.symm, stages call (.inl rfl)⟩
      case isFalse =>
        have before := attached.inflight key number found
        exact ⟨before.1, stages number (.inr before.2)⟩
    · intro key number found
      simp only [Replica.register, Replica.set, get?_set] at found
      split at found
      case isTrue same =>
        obtain rfl := Option.some.inj found
        exact ⟨same.symm, stages call (.inl rfl)⟩
      case isFalse =>
        have before := attached.streams key number found
        exact ⟨before.1, stages number (.inr before.2)⟩
    · simp only [submitted]
      exact attached.distinct.append (nodup_singleton call) (by simpa using unknown)
    · intro number mem
      simp only [submitted, mem_append, mem_singleton] at mem
      exact stages number (mem.symm.imp_right (attached.arrived number))
    all_goals by_cases same : call = ours
    · subst same
      have now : (rep.register inc call).rpcs call = rpc := by simp [Replica.register, Replica.set, rpc]
      simp only [now]
      exact ⟨fun gone => by simp [rpc] at gone, attached.saying.read, attached.saying.tokens⟩
    · simpa [Replica.register, Replica.set, update_of_ne (Ne.symm same)] using attached.saying
    · subst same
      simpa [Replica.register, Replica.set, drainedSame] using attached.taken
    · simpa [Replica.register, Replica.set, drainedSame, update_of_ne (Ne.symm same)] using attached.taken
    · subst same
      intro _
      refine ⟨by simp [Replica.register, Replica.set, get?_set], ?_⟩
      have now : (rep.register inc call).rpcs call = rpc := by simp [Replica.register, Replica.set, rpc]
      simp only [now, drainedSame]
      rw [quiet rfl, nothing rfl]
    · simp only [Replica.register, Replica.set, update_of_ne (Ne.symm same), drainedSame, get?_set]
      rw [if_neg (alone call same).symm]
      exact attached.streaming
  have fanned := handed.fanout alone named
  simp only [Replica.submit, Replica.onEngine]
  have calledHere : (rep.register inc call).session.call cfg (.addRequest call late) = .ok sess := called
  rw [calledHere]
  dsimp only
  split
  · refine ⟨_, rfl, fanned.unregister alone (by simp [Rpc.yield]) (by simp [Rpc.yield]) ?_ ?_⟩
    · rintro rfl
      exact fanned.saying.answer (by simp)
    · rintro rfl
      exact fanned.taken
  · exact ⟨_, rfl, fanned⟩

theorem step {event : Event}
    (kept : event = .step → victimOf cfg rep.session .step ≠ some ours) :
    ∃ next, rep.step cfg tok inc event = .ok next ∧ Attached cfg tok inc start ours next := by
  cases event with
  | arrive call late =>
    simp only [Replica.step]
    split
    case isFalse => exact ⟨_, rfl, attached⟩
    case isTrue absent =>
      simp only [Replica.generate]
      split
      · exact ⟨_, rfl, attached.answer call _⟩
      · split
        case h_1 owner found =>
          -- The owner of our id would be ourselves, and we have only just arrived.
          have differs : call ≠ ours := by
            rintro rfl
            have entry := attached.inflight _ owner found
            by_cases self : owner = call
            · exact entry.2 (self ▸ absent)
            · exact alone owner self entry.1
          exact ⟨_, rfl, attached.set (by simp [Rpc.yield]) (absurd · differs) (absurd · differs) (absurd · differs)⟩
        case h_2 =>
          split
          · exact ⟨_, rfl, attached.answer call _⟩
          · exact attached.submit alone named stock streamed orderly fresh absent late
  | poll call cancelled =>
    refine ⟨_, rfl, ?_⟩
    simp only [Replica.poll]
    split
    case h_1 streaming =>
      by_cases same : call = ours
      · subst same
        obtain ⟨saying, read, stays⟩ := attached.saying.loop streaming cancelled
        obtain ⟨registered, all⟩ := attached.streaming streaming
        exact attached.set (loop_present streaming cancelled) (fun _ => saying) (fun _ => all ▸ read)
          fun _ still => ⟨registered, (stays still).trans all⟩
      · exact attached.set (loop_present streaming cancelled) (absurd · same) (absurd · same) (absurd · same)
    case h_2 => exact attached.answer call _
    case h_3 => exact attached
  | leave call =>
    simp only [Replica.step]
    split
    case isFalse => exact ⟨_, rfl, attached⟩
    case isTrue inside =>
      have closing : Attached cfg tok inc start ours
          (rep.set call { rep.rpcs call with stage := .closing }) := by
        refine attached.set (by simp) ?_ ?_ ?_
        · rintro rfl
          exact ⟨fun gone => by simp at gone, attached.saying.read, attached.saying.tokens⟩
        · rintro rfl
          exact attached.taken
        · rintro rfl stays
          simp at stays
      exact closing.onEngine stock (by simp [victimOf]) rfl (by simp)
  | close =>
    simp only [Replica.step]
    split
    case isFalse => exact ⟨_, rfl, attached⟩
    case isTrue closing =>
      have fanned := attached.fanout alone named
      refine ⟨_, rfl, fanned.unregister alone (by simp) (by simp) ?_ ?_⟩
      · rintro rfl
        exact ⟨fun gone => by simp at gone, fanned.saying.read, fanned.saying.tokens⟩
      · rintro rfl
        exact fanned.taken
  | step => exact attached.onEngine stock (kept rfl) rfl (by simp)
  | applyCancellations => exact attached.onEngine stock (by simp [victimOf]) rfl (by simp)
  | fanout => exact ⟨_, rfl, attached.fanout alone named⟩
  | drain =>
    exact ⟨_, rfl, attached.linked, attached.inflight, attached.streams, attached.distinct, attached.arrived,
      attached.saying, attached.taken, attached.streaming⟩

end Events

end Alone

end Attached

/-! ## Whole runs -/

def boot (cfg : Config X V L S) (tok : BPETokenizer) (incoming : Nat → Incoming) (setup : Setup V S) : Machine V S where
  session := (Replica.new cfg tok incoming setup).session

/-- The engine does not throw the request of call `ours` out. -/
def Retains (cfg : Config X V L S) (ours : Nat) (replica : Replica V S) (event : Event) : Prop :=
  event = .step → victimOf cfg replica.session .step ≠ some ours

instance (cfg : Config X V L S) (ours : Nat) (replica : Replica V S) (event : Event) :
    Decidable (Retains cfg ours replica event) := inferInstanceAs (Decidable (_ → _))

/-- The prompts a replica hashes. -/
def Prompts (tok : BPETokenizer) (incoming : Nat → Incoming) (tokens : List Nat) : Prop :=
  ∃ call, tokens = ((incoming call).submission tok).promptTokenIds

section Runs

variable {setup : Setup V S} {ours : Nat} {rep : Replica V S}

theorem boot_memory (chains : ∀ tokens, Prompts tok inc tokens →
    (hashChain cfg.blockHash setup.blockSize tokens).Nodup) : Memory cfg (boot cfg tok inc setup) :=
  .new setup.numBlocks setup.enablePrefixCache setup.zero setup.rng setup.positive fun _ call => chains _ ⟨call, rfl⟩

theorem boot_stock : Stock cfg (boot cfg tok inc setup) :=
  .new setup.numBlocks setup.enablePrefixCache setup.zero _ setup.rng setup.positive

theorem served (alone : ∀ call, call ≠ ours → (inc call).reqId ≠ (inc ours).reqId) (events : List Event)
    (retained : Along (Replica.step cfg tok inc) (Retains cfg ours) (Replica.new cfg tok inc setup) events) :
    ∃ rep, (Replica.new cfg tok inc setup).after cfg tok inc events = .ok rep ∧
      Attached cfg tok inc (boot cfg tok inc setup) ours rep := by
  have initially : Attached cfg tok inc (boot cfg tok inc setup) ours (Replica.new cfg tok inc setup) := by
    refine ⟨⟨boot cfg tok inc setup, rfl, rfl, .refl, by simp [boot]⟩, ?_, ?_, nodup_nil, ?_, .new _,
      nil_prefix, fun streaming => ?_⟩
    · intro key call found
      simp [Replica.new] at found
    · intro key call found
      simp [Replica.new] at found
    · intro call mem
      simp [Replica.new, Session.new] at mem
    · simp [Replica.new] at streaming
  exact run_total_along (fun rep event attached kept =>
    attached.step alone (fun _ => rfl) boot_stock (fun _ => rfl) (.new _ _ _ _ _ _) (fun _ _ _ => rfl) kept)
    initially retained

namespace Attached

section

variable (attached : Attached cfg tok inc (boot cfg tok inc setup) ours rep)
include attached

theorem output :
    (rep.rpcs ours).cursor.produced <+: (rep.session.engine.requests ours).outputTokenIds := by
  rw [← attached.linked.emittedFor boot_stock fun _ => rfl]
  exact attached.taken.trans (drainedFor_extends rep.session ours)

theorem produced_le :
    (rep.rpcs ours).cursor.produced.length ≤ (inc ours).remaining := by
  refine Nat.le_trans attached.output.length_le ?_
  obtain ⟨m, sessionEq, -, steps, -⟩ := attached.linked
  have budgeted := @Budgeted.new X V L S cfg setup.numBlocks setup.blockSize setup.enablePrefixCache setup.zero
    (fun call => (inc call).submission tok) setup.rng
  have spent := (budgeted.reaches boot_stock (.new _ _ _ _ _ _) (fun _ _ _ => rfl) steps
    (sessionEq ▸ attached.distinct)).all ours
  have params := (steps.sameClient ours).params
  rw [params] at spent
  rw [← sessionEq]
  exact spent (Nat.le_max_left _ _)

theorem produced_greedy
    (collisionFree : CollisionFree cfg.blockHash setup.blockSize (Prompts tok inc))
    (greedy : (inc ours).request.params.temperature = 0) :
    (rep.rpcs ours).cursor.produced <+:
      (greedyLoop cfg (inc ours).params ((inc ours).submission tok).promptTokenIds
        (inc ours).remaining []).1 := by
  have memory : Memory cfg (boot cfg tok inc setup) :=
    boot_memory fun tokens prompt => nodup_hashChain collisionFree prompt
  refine attached.output.trans ?_
  obtain ⟨m, sessionEq, -, steps, -⟩ := attached.linked
  have sound := @Sound.new X V L S cfg (Prompts tok inc) setup.numBlocks setup.blockSize setup.enablePrefixCache
    setup.zero (fun call => (inc call).submission tok) setup.rng fun call => ⟨call, rfl⟩
  have faithful := @Faithful.new X V L S cfg setup.numBlocks setup.blockSize setup.enablePrefixCache setup.zero
    (fun call => (inc call).submission tok) setup.rng
  have budgeted := @Budgeted.new X V L S cfg setup.numBlocks setup.blockSize setup.enablePrefixCache setup.zero
    (fun call => (inc call).submission tok) setup.rng
  have last := faithful.reaches memory sound collisionFree (.new _ _ _ _ _ _) (fun _ _ _ => rfl) budgeted steps
    (sessionEq ▸ attached.distinct)
  have client := steps.sameClient ours
  have params : (m.engine.requests ours).params = (inc ours).params := client.params
  have prompt : (m.engine.requests ours).promptTokenIds = ((inc ours).submission tok).promptTokenIds :=
    client.prompt
  have result := (last.results ours (by simp [params, SamplingParams.greedy, Incoming.params, greedy])
    (by rw [params]; exact Nat.le_max_left _ _)).output
  rw [params, prompt] at result
  rw [← sessionEq]
  exact result

end

end Attached

end Runs

end Nanoserve.Verified
