import Nanoserve.Verified.Dispatch
import Nanoserve.Verified.Turns

/-! # Indices of the token events

A call counts its Token messages from the number of tokens it resumes from.
-/

namespace Nanoserve.Verified

open Engine Lib Proto List
open Model (BPETokenizer Text)
open Router (Proxy GenerateBody Visit Progress Ended ClientEvent Failure receive attempt iteration
  stream reached)

variable {X V L S : Type} {cfg : Config X V L S} {tok : BPETokenizer} {inc : Nat → Incoming}

/-- When the call arrives, its id is not in flight. -/
def Unclaimed (incoming : Nat → Incoming) (ours : Nat) (replica : Replica V S) : Event → Prop
  | .arrive call _ => call = ours → (replica.rpcs ours).stage = .absent →
      replica.inflight.get? (incoming ours).reqId = none
  | _ => True

instance (incoming : Nat → Incoming) (ours : Nat) (replica : Replica V S) (event : Event) :
    Decidable (Unclaimed incoming ours replica event) :=
  match event with
  | .arrive _ _ => inferInstanceAs (Decidable (_ → _ → _))
  | .poll _ _ | .leave _ | .close _ | .step | .applyCancellations | .fanout | .drain => .isTrue trivial

def Numbered (incoming : Nat → Incoming) (ours : Nat) (replica : Replica V S) : Prop :=
  tokensOf (replica.rpcs ours).yielded = (replica.rpcs ours).cursor.tokens (incoming ours).base

theorem loop_tokens {base : Nat} {rpc : Rpc} (tokens : tokensOf rpc.yielded = rpc.cursor.tokens base)
    (cancelled : Bool) : tokensOf (rpc.loop tok base cancelled).yielded = (rpc.loop tok base cancelled).cursor.tokens base := by
  have finished : ∀ finish stage, tokensOf (rpc.yield [.finish finish] stage).yielded = rpc.cursor.tokens base := by
    intro finish stage
    simpa [Rpc.yield] using tokens
  simp only [Rpc.loop]
  split
  · exact finished _ _
  · split
    case h_1 =>
      simp only [Rpc.accept]
      split
      case h_1 => exact tokens
      case h_2 next accepted =>
        obtain ⟨whole, -, ⟨-, -, none, -⟩ | ⟨-, -, rfl⟩⟩ := accept_cases accepted
        · cases none
        · exact tokens
      case h_3 next _ accepted =>
        obtain ⟨whole, -, ⟨-, -, piece, rfl⟩ | ⟨-, none, -⟩⟩ := accept_cases accepted
        · obtain rfl := Option.some.inj piece
          simp only [tokensOf_append, tokens, tokens_snoc, tokensOf_token, tokensOf_nil]
        · cases none
    case h_2 =>
      split
      · exact finished _ _
      · exact tokens

theorem Numbered.step {ours : Nat} {rep next : Replica V S} {event : Event}
    (numbered : Numbered inc ours rep) (unclaimed : Unclaimed inc ours rep event)
    (went : rep.step cfg tok inc event = .ok next) : Numbered inc ours next := by
  have turn := step_turn went ours
  simp only [Numbered] at numbered ⊢
  generalize next.rpcs ours = rpc at turn ⊢
  cases turn with
  | rests rests => rw [rests.yielded, rests.cursor, numbered]
  | refused | followed => simpa [Rpc.yield] using numbered
  | follows absent _ found =>
    rw [unclaimed rfl absent] at found
    cases found
  | answered _ _ _ _ cursor yielded =>
    rw [cursor, yielded, tokensOf_append]
    simpa using numbered
  | opened _ _ _ _ cursor yielded | closed _ _ cursor yielded => rw [cursor, yielded, numbered]
  | looped => exact loop_tokens numbered _
  | left => exact numbered

theorem Numbered.after {setup : Setup V S} {ours : Nat} {events : List Event} {last : Replica V S}
    (unclaimed : Along (Replica.step cfg tok inc) (Unclaimed inc ours) (Replica.new cfg tok inc setup) events)
    (ran : (Replica.new cfg tok inc setup).after cfg tok inc events = .ok last) :
    Numbered inc ours last := by
  have initially : Numbered inc ours (Replica.new cfg tok inc setup) := rfl
  exact run_preserves (fun _ _ _ numbered unclaimed went => Numbered.step numbered unclaimed went) initially
    unclaimed ran

/-- The request id is not in flight on the replica the attempt reaches. -/
def NotInFlight (cfg : Config X V L S) (tok : BPETokenizer) (body : GenerateBody) (now : Rat) (progress : Progress)
    (visit : Visit V S) : Prop :=
  Along (Replica.step cfg tok (visit.incoming (body.request now progress.delivered)))
    (Unclaimed (visit.incoming (body.request now progress.delivered)) visit.call)
    (Replica.new cfg tok (visit.incoming (body.request now progress.delivered)) visit.setup) visit.events

instance (cfg : Config X V L S) (tok : BPETokenizer) (body : GenerateBody) (now : Rat) (progress : Progress)
    (visit : Visit V S) : Decidable (NotInFlight cfg tok body now progress visit) :=
  inferInstanceAs (Decidable (Along _ _ _ _))

theorem tokens_index (base : Nat) (cursor : Cursor) :
    (cursor.tokens base).map Token.index = range' base cursor.emitted.length :=
  ext_getElem (by simp [Cursor.tokens]) fun index _ _ => by simp [Cursor.tokens]

/-- The indices of the token events. -/
def tokenIndices (events : List ClientEvent) : List Nat := (tokenEvents events).map Prod.snd

section Attempt

variable {body : GenerateBody} {now : Rat} {prog : Progress} {visit : Visit V S}

theorem chunks_index (unclaimed : NotInFlight cfg tok body now prog visit) :
    ∃ count, (tokensOf (visit.chunks cfg tok (body.request now prog.delivered))).map Token.index =
      range' prog.delivered.length count := by
  simp only [Visit.chunks]
  split
  case h_1 last ran =>
    have numbered : Numbered _ visit.call last := .after unclaimed ran
    have base : (visit.incoming (body.request now prog.delivered) visit.call).base = prog.delivered.length := by
      simp [Visit.incoming, Incoming.base, GenerateBody.request]
    rw [Numbered, base] at numbered
    have first := (tokensOf_take (last.rpcs visit.call).yielded visit.received).map Token.index
    rw [numbered, tokens_index] at first
    have short := first.length_le
    rw [length_range'] at short
    exact ⟨_, (prefix_iff_eq_take.mp first).trans (take_range'_of_length_ge short)⟩
  case h_2 => exact ⟨0, rfl⟩

theorem attempt_index (unclaimed : NotInFlight cfg tok body now prog visit) (rep : String) :
    tokenIndices (attempt cfg tok body now rep prog.delivered visit).written =
      range' prog.delivered.length
        (attempt cfg tok body now rep prog.delivered visit).delivered.length := by
  simp only [attempt]
  split
  · rfl
  · split
    · rfl
    · obtain ⟨count, most, delivered, written⟩ := receive_spec rep visit.broken
        (visit.chunks cfg tok (body.request now prog.delivered))
      obtain ⟨_, indices⟩ := chunks_index unclaimed
      have lengths := congrArg List.length indices
      rw [length_map, length_range'] at lengths
      rw [tokenIndices, written, map_map, delivered, length_map, length_take, Nat.min_eq_left most]
      have taken := congrArg (take count) indices
      rw [← map_take, take_range'_of_length_ge (by omega)] at taken
      exact taken

end Attempt

theorem range_append_range' (first second : Nat) :
    range first ++ range' first second = range (first + second) := by
  rw [range_eq_range', range_eq_range']
  simpa using @range'_append_1 0 first second

/-- Over all attempts of a request, whatever fails and when, the token events carry the
indices 0, 1, 2, … in this order. -/
theorem token_indices_unbroken (cfg : Config X V L S) (tok : BPETokenizer) (proxy : Proxy) (body : GenerateBody)
    (now : Rat) (visits : List (Visit V S))
    (unclaimed : Along (iteration cfg tok proxy body now) (NotInFlight cfg tok body now) {} visits) :
    tokenIndices (reached (stream cfg tok proxy body now visits)).written =
      List.range (tokenIndices (reached (stream cfg tok proxy body now visits)).written).length := by
  -- As long as `stream` goes on there are as many events as delivered tokens.
  have outcome := @run_outcome _ _ _ (iteration cfg tok proxy body now)
    (fun progress => tokenIndices progress.written = List.range progress.delivered.length)
    (fun ended => ∃ count, tokenIndices ended.progress.written = List.range count) _ ?_ ?_ visits {} rfl unclaimed
  · obtain ⟨count, indices⟩ :
        ∃ count, tokenIndices (reached (stream cfg tok proxy body now visits)).written = List.range count := by
      simp only [stream]
      split at outcome
      case h_1 last ran =>
        rw [ran]
        exact ⟨_, outcome⟩
      case h_2 ended ran =>
        rw [ran]
        exact outcome
    rw [indices, List.length_range]
  · intro progress visit next counted unclaimed continued
    rcases iteration_spec progress visit with ⟨err, ended⟩ | ⟨replica, written, goesOn⟩
    · rw [ended] at continued
      cases continued
    · rw [continued] at written
      rw [tokenIndices] at counted
      rw [tokenIndices, show tokenEvents next.written = _ from written, List.map_append, counted,
        (goesOn next continued).1, List.length_append]
      exact (congrArg _ (attempt_index unclaimed replica)).trans (range_append_range' _ _)
  · intro progress visit ended counted unclaimed raised
    rcases iteration_spec progress visit with ⟨err, same⟩ | ⟨replica, written, -⟩
    · rw [raised] at same
      cases same
      exact ⟨_, counted⟩
    · rw [raised] at written
      refine ⟨progress.delivered.length +
        (attempt cfg tok body now replica progress.delivered visit).delivered.length, ?_⟩
      rw [tokenIndices] at counted
      rw [tokenIndices, show tokenEvents ended.progress.written = _ from written, List.map_append, counted]
      exact (congrArg _ (attempt_index unclaimed replica)).trans (range_append_range' _ _)

theorem token_indices_unbroken_pair :
    Along (iteration counting spelling {} (asking ['A'] 3) 0) (NotInFlight counting spelling (asking ['A'] 3) 0) {}
        [serving 1, serving 5] ∧
      tokenIndices (reached (stream counting spelling {} (asking ['A'] 3) 0 [serving 1, serving 5])).written =
        List.range (tokenIndices (reached (stream counting spelling {} (asking ['A'] 3) 0
          [serving 1, serving 5])).written).length :=
  ⟨by decide +kernel, token_indices_unbroken counting spelling {} (asking ['A'] 3) 0 [serving 1, serving 5]
    (by decide +kernel)⟩

end Nanoserve.Verified
