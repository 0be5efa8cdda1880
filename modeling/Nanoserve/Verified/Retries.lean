import Nanoserve.Verified.Indices

/-! # Two calls with one request id

A call that finds its id in flight is not generated a second time.
-/

namespace Nanoserve.Verified

open Engine Lib Proto List
open Model (BPETokenizer Text)

variable {X V L S : Type} {cfg : Config X V L S} {tok : BPETokenizer} {inc : Nat → Incoming}
variable {rep next : Replica V S} {event : Event} {base : Nat} {rpc : Rpc}

/-- The reasons of the Finish messages of a stream. -/
def reasonsOf (chunks : List GenerateChunk) : List Reason :=
  chunks.filterMap fun
    | .token _ => none
    | .finish finish => some finish.reason

@[simp] theorem reasonsOf_append (first second : List GenerateChunk) :
    reasonsOf (first ++ second) = reasonsOf first ++ reasonsOf second := filterMap_append

theorem reasonsOf_tokens (tokens : List Token) : reasonsOf (tokens.map .token) = [] := by
  simp [reasonsOf]

theorem tokensOf_tokens (tokens : List Token) : tokensOf (tokens.map .token) = tokens := by
  simp [tokensOf, filterMap_map]

/-! ## Calls in flight -/

def Within (stage : Stage) : Prop := stage = .streaming ∨ stage = .leaving ∨ stage = .closing

theorem inflight_step (went : rep.step cfg tok inc event = .ok next) {key : String} {call : Nat}
    (found : next.inflight.get? key = some call) :
    (rep.inflight.get? key = some call ∧
        (event = .close call → (rep.rpcs call).stage = .closing → (inc call).reqId ≠ key)) ∨
      ∃ late, event = .arrive call late ∧ (rep.rpcs call).stage = .absent ∧ (inc call).reqId = key ∧
        (next.rpcs call).stage = .streaming := by
  cases step_shared went with
  | same books leavesOpen =>
    rw [books.inflight] at found
    exact .inl ⟨found, fun closes closing => absurd closing (leavesOpen call closes)⟩
  | @joined arriving late absent stage inflight =>
    rw [inflight, Dict.get?_set] at found
    split at found
    case isTrue same =>
      obtain rfl := Option.some.inj found
      exact .inr ⟨late, rfl, absent, same.symm, stage⟩
    case isFalse => exact .inl ⟨found, fun closes => by cases closes⟩
  | turnedAway _ _ inflight =>
    rw [inflight, Dict.get?_erase] at found
    split at found
    · cases found
    case isFalse differs =>
      rw [Dict.get?_set, if_neg differs] at found
      exact .inl ⟨found, fun closes => by cases closes⟩
  | closed _ inflight =>
    rw [inflight, Dict.get?_erase] at found
    split at found
    · cases found
    case isFalse differs =>
      refine .inl ⟨found, ?_⟩
      rintro same -
      cases same
      exact fun equal => differs equal.symm
  | drained inflight =>
    rw [inflight] at found
    exact .inl ⟨found, fun closes => by cases closes⟩

theorem submitted_step (went : rep.step cfg tok inc event = .ok next) :
    next.session.submitted = rep.session.submitted ∨
      ∃ call late, event = .arrive call late ∧ (rep.rpcs call).stage = .absent ∧
        (next.rpcs call).stage ≠ .absent ∧ next.session.submitted = rep.session.submitted ++ [call] := by
  cases step_shared went with
  | same books => exact .inl books.submitted
  | @joined call late absent stage _ _ submitted | @turnedAway call late absent stage _ _ submitted =>
    exact .inr ⟨call, late, rfl, absent, by simp [stage], submitted⟩
  | closed _ _ _ submitted | drained _ _ submitted => exact .inl submitted

structure Booked (incoming : Nat → Incoming) (replica : Replica V S) : Prop where
  entries : ∀ key call, replica.inflight.get? key = some call →
    (incoming call).reqId = key ∧ Within (replica.rpcs call).stage
  fresh : ∀ call, (replica.rpcs call).stage = .absent →
    (replica.rpcs call).cursor = {} ∧ (replica.rpcs call).yielded = [] ∧ call ∉ replica.session.submitted
  numbered : ∀ call, Within (replica.rpcs call).stage → Numbered incoming call replica
  unfinished : ∀ call, (replica.rpcs call).stage = .streaming → reasonsOf (replica.rpcs call).yielded = []

theorem loop_unfinished (unfinished : reasonsOf rpc.yielded = []) (cancelled : Bool)
    (stays : (rpc.loop tok base cancelled).stage = .streaming) :
    reasonsOf (rpc.loop tok base cancelled).yielded = [] := by
  simp only [Rpc.loop] at stays ⊢
  split at stays
  · simp [Rpc.yield] at stays
  · rename_i attentive
    rw [if_neg attentive]
    split at stays
    · simp only [Rpc.accept] at stays ⊢
      split at stays
      · simp at stays
      · exact unfinished
      · rw [reasonsOf_append, unfinished]
        rfl
    · split at stays
      · simp [Rpc.yield] at stays
      · rename_i waiting
        rw [if_neg waiting]
        exact unfinished

theorem loop_within (streaming : rpc.stage = .streaming) (cancelled : Bool) :
    Within (rpc.loop tok base cancelled).stage := by
  simp only [Rpc.loop]
  split
  · exact .inr (.inl rfl)
  · split
    · simp only [Rpc.accept]
      split
      · exact .inr (.inl rfl)
      · exact .inl streaming
      · exact .inl streaming
    · split
      · exact .inr (.inl rfl)
      · exact .inl streaming

theorem Booked.step (booked : Booked inc rep) (went : rep.step cfg tok inc event = .ok next) :
    Booked inc next := by
  refine ⟨fun key call found => ?_, fun call absent => ?_, fun call inside => ?_, fun call streaming => ?_⟩
  · rcases inflight_step went found with ⟨before, kept⟩ | ⟨late, -, -, named, streaming⟩
    · obtain ⟨named, inside⟩ := booked.entries key call before
      refine ⟨named, ?_⟩
      have turn := step_turn went call
      generalize next.rpcs call = rpc at turn ⊢
      cases turn with
      | rests rests =>
        rw [rests.stage]
        exact inside
      | refused stage | follows stage | answered stage | opened stage | followed stage => simp [Within, stage] at inside
      | looped streaming => exact loop_within streaming _
      | left => exact .inr (.inr rfl)
      | closed closing => exact absurd named (kept rfl closing)
    · exact ⟨named, .inl streaming⟩
  · have turn := step_turn went call
    have before : (rep.rpcs call).stage = .absent ∧ (next.rpcs call).cursor = (rep.rpcs call).cursor ∧
        (next.rpcs call).yielded = (rep.rpcs call).yielded := by
      generalize next.rpcs call = rpc at turn absent ⊢
      cases turn with
      | rests rests => exact ⟨rests.stage ▸ absent, rests.cursor, rests.yielded⟩
      | refused | follows | followed => simp [Rpc.yield] at absent
      | answered _ _ _ ended | opened _ _ _ ended | closed _ ended => simp [ended] at absent
      | looped streaming => exact absurd absent (loop_present streaming _)
      | left => simp at absent
    obtain ⟨cursor, yielded, unknown⟩ := booked.fresh call before.1
    refine ⟨before.2.1.trans cursor, before.2.2.trans yielded, ?_⟩
    rcases submitted_step went with same | ⟨arriving, late, -, -, present, grown⟩
    · rwa [same]
    · rw [grown, mem_append, mem_singleton, not_or]
      refine ⟨unknown, ?_⟩
      rintro rfl
      exact present absent
  · have turn := step_turn went call
    simp only [Numbered]
    generalize next.rpcs call = rpc at turn inside ⊢
    cases turn with
    | rests rests =>
      rw [rests.yielded, rests.cursor]
      exact booked.numbered call (rests.stage ▸ inside)
    | refused | follows | followed => simp [Within, Rpc.yield] at inside
    | answered _ _ _ ended | closed _ ended => simp [Within, ended] at inside
    | opened absent _ _ _ cursor yielded =>
      obtain ⟨empty, nothing, -⟩ := booked.fresh call absent
      rw [cursor, yielded, empty, nothing]
      rfl
    | looped streaming => exact loop_tokens (booked.numbered call (.inl streaming)) _
    | left before => exact booked.numbered call (before.imp_right Or.inl)
  · have turn := step_turn went call
    generalize next.rpcs call = rpc at turn streaming ⊢
    cases turn with
    | rests rests =>
      rw [rests.yielded]
      exact booked.unfinished call (rests.stage ▸ streaming)
    | refused | follows | followed => simp [Rpc.yield] at streaming
    | answered _ _ _ ended | closed _ ended => simp [ended] at streaming
    | opened absent _ _ _ _ yielded =>
      rw [yielded, (booked.fresh call absent).2.1]
      rfl
    | looped before => exact loop_unfinished (booked.unfinished call before) _ streaming
    | left => simp at streaming

theorem Booked.after {setup : Setup V S} {events : List Event} {last : Replica V S}
    (ran : (Replica.new cfg tok inc setup).after cfg tok inc events = .ok last) : Booked inc last := by
  have initially : Booked inc (Replica.new cfg tok inc setup) := by
    refine ⟨fun key call found => ?_, fun call _ => ⟨rfl, rfl, ?_⟩, fun call _ => rfl, fun call _ => rfl⟩
    · simp [Replica.new] at found
    · simp [Replica.new, Session.new]
  exact run_preserves (fun _ _ _ booked _ went => Booked.step booked went) initially
    (along_trivial (fun _ _ => trivial) events _) ran

/-! ## The second call -/

def sendsNothingNew (tok : BPETokenizer) (base resumed : Nat) (rpc : Rpc) : Bool :=
  match rpc.queue with
  | [] => decide (rpc.finishReason.getD .cancelled = .cancelled)
  | tokenId :: _ =>
    match rpc.cursor.accept tok tokenId with
    | none => false
    | some (_, none) => true
    | some (_, some _) => decide (base + rpc.cursor.emitted.length < resumed)

/-- The first call gives up: it is told to stop before the engine is done with it, or it has nothing
new to send. -/
def GivesUp (tok : BPETokenizer) (incoming : Nat → Incoming) (first second : Nat) (replica : Replica V S) : Event → Prop
  | .poll call cancelled => call = first → (replica.rpcs first).stage = .streaming →
      if cancelled then (replica.rpcs first).finishReason.getD .cancelled = .cancelled
      else sendsNothingNew tok (incoming first).base (incoming second).base (replica.rpcs first) = true
  | .leave call => call = first → (replica.rpcs first).stage ≠ .streaming
  | _ => True

instance (tok : BPETokenizer) (incoming : Nat → Incoming) (first second : Nat) (replica : Replica V S) (event : Event) :
    Decidable (GivesUp tok incoming first second replica event) :=
  match event with
  | .poll _ _ => inferInstanceAs (Decidable (_ → _ → _))
  | .leave _ => inferInstanceAs (Decidable (_ → _))
  | .arrive _ _ | .close _ | .step | .applyCancellations | .fanout | .drain => .isTrue trivial

structure Replayable (incoming : Nat → Incoming) (first second : Nat) (replica : Replica V S) : Prop where
  serving : replica.draining = false
  aligned : (replica.rpcs first).cursor.emitted = [] ∨ (incoming first).base = 0 ∧ (incoming second).base = 0
  ending : (replica.rpcs first).stage = .streaming ∨ reasonsOf (replica.rpcs first).yielded = [.cancelled]

instance (incoming : Nat → Incoming) (first second : Nat) (replica : Replica V S) :
    Decidable (Replayable incoming first second replica) :=
  decidable_of_iff (replica.draining = false ∧
      ((replica.rpcs first).cursor.emitted = [] ∨ (incoming first).base = 0 ∧ (incoming second).base = 0) ∧
      ((replica.rpcs first).stage = .streaming ∨ reasonsOf (replica.rpcs first).yielded = [.cancelled]))
    ⟨fun ⟨serving, aligned, ending⟩ => ⟨serving, aligned, ending⟩,
      fun ⟨serving, aligned, ending⟩ => ⟨serving, aligned, ending⟩⟩

/-- The second caller gets the Token messages of the first that it does not have yet. -/
structure SameAnswer (resumed : Nat) (first second : Rpc) : Prop where
  tokens : tokensOf second.yielded = (tokensOf first.yielded).filter fun token => decide (resumed ≤ token.index)
  reasons : reasonsOf second.yielded = reasonsOf first.yielded

structure Shadowed (incoming : Nat → Incoming) (first second : Nat) (replayed : List Token) (replica : Replica V S) :
    Prop where
  follower : (replica.rpcs second).stage = .following first ∧ (replica.rpcs second).yielded = replayed.map .token ∨
    (replica.rpcs second).stage = .ended ∧
      ∃ count, (replica.rpcs second).yielded = replayed.map .token ++ [.finish (duplicateFinish count)]
  present : Within (replica.rpcs first).stage ∨ (replica.rpcs first).stage = .ended
  numbered : Numbered incoming first replica
  covered : (tokensOf (replica.rpcs first).yielded).filter (fun token => decide ((incoming second).base ≤ token.index)) =
    replayed
  reasons : reasonsOf (replica.rpcs first).yielded = if (replica.rpcs first).stage = .streaming then [] else [.cancelled]
  unsubmitted : second ∉ replica.session.submitted

theorem Shadowed.start {first second : Nat} {rep next : Replica V S} {late : Bool} (booked : Booked inc rep)
    (found : rep.inflight.get? (inc second).reqId = some first)
    (absent : (rep.rpcs second).stage = .absent) (replayable : Replayable inc first second rep)
    (went : rep.step cfg tok inc (.arrive second late) = .ok next) :
    Shadowed inc first second ((rep.rpcs first).cursor.tokens 0) next := by
  obtain ⟨-, inside⟩ := booked.entries _ _ found
  have differs : first ≠ second := by
    rintro rfl
    simp [Within, absent] at inside
  simp only [Replica.step, absent, if_true, Replica.generate, replayable.serving, found] at went
  cases went
  have nothing := (booked.fresh second absent).2
  have numbered := booked.numbered first inside
  refine ⟨.inl ⟨?_, ?_⟩, .inl ?_, ?_, ?_, ?_, nothing.2⟩
  · rw [set_rpcs_self]
    rfl
  · rw [set_rpcs_self, Rpc.yield, nothing.1]
    rfl
  · rw [set_rpcs_other _ _ differs]
    exact inside
  · rw [Numbered, set_rpcs_other _ _ differs]
    exact numbered
  · rw [set_rpcs_other _ _ differs, numbered]
    rcases replayable.aligned with none | ⟨baseFirst, baseSecond⟩
    · simp [Cursor.tokens, none]
    · rw [baseFirst, baseSecond]
      simp
  · rw [set_rpcs_other _ _ differs]
    split
    case isTrue streaming => exact booked.unfinished first streaming
    case isFalse gone => exact replayable.ending.resolve_left gone

theorem loop_givesUp {resumed : Nat} {cancelled : Bool} (streaming : rpc.stage = .streaming)
    (unfinished : reasonsOf rpc.yielded = [])
    (quiet : if cancelled then rpc.finishReason.getD .cancelled = .cancelled else sendsNothingNew tok base resumed rpc = true) :
    (tokensOf (rpc.loop tok base cancelled).yielded).filter (fun token => decide (resumed ≤ token.index)) =
        (tokensOf rpc.yielded).filter (fun token => decide (resumed ≤ token.index)) ∧
      reasonsOf (rpc.loop tok base cancelled).yielded =
        if (rpc.loop tok base cancelled).stage = .streaming then [] else [.cancelled] := by
  have finished : ∀ outputTokens, rpc.finishReason.getD .cancelled = .cancelled →
      reasonsOf (rpc.yield [.finish { reason := finishOf (rpc.finishReason.getD .cancelled), outputTokens }]
        .leaving).yielded = [.cancelled] := by
    intro outputTokens reason
    rw [Rpc.yield, reason, reasonsOf_append, unfinished]
    rfl
  cases cancelled with
  | true =>
    simp only [if_true] at quiet
    simp only [Rpc.loop, if_true]
    refine ⟨by simp [Rpc.yield], (finished _ quiet).trans ?_⟩
    rw [if_neg (by simp [Rpc.yield])]
  | false =>
    simp only [Bool.false_eq_true, if_false, sendsNothingNew] at quiet
    simp only [Rpc.loop, Bool.false_eq_true, if_false]
    cases queueEq : rpc.queue with
    | nil =>
      simp only [queueEq, decide_eq_true_eq] at quiet ⊢
      split
      · refine ⟨by simp [Rpc.yield], (finished _ quiet).trans ?_⟩
        rw [if_neg (by simp [Rpc.yield])]
      · exact ⟨rfl, by simp [unfinished]⟩
    | cons tokenId =>
      simp only [queueEq] at quiet ⊢
      simp only [Rpc.accept]
      obtain ⟨result, accepted⟩ : ∃ result, rpc.cursor.accept tok tokenId = result := ⟨_, rfl⟩
      simp only [accepted] at quiet ⊢
      rcases result with _ | ⟨cursor, _ | text⟩
      · cases quiet
      · simp [unfinished, streaming]
      · have known : ¬resumed ≤ base + rpc.cursor.emitted.length := by simpa using quiet
        refine ⟨by simp [known], ?_⟩
        rw [reasonsOf_append, unfinished, if_pos streaming]
        rfl

theorem Shadowed.step {first second : Nat} {replayed : List Token}
    (shadowed : Shadowed inc first second replayed rep)
    (quiet : GivesUp tok inc first second rep event)
    (went : rep.step cfg tok inc event = .ok next) : Shadowed inc first second replayed next := by
  have follower : (next.rpcs second).stage = .following first ∧ (next.rpcs second).yielded = replayed.map .token ∨
      (next.rpcs second).stage = .ended ∧
        ∃ count, (next.rpcs second).yielded = replayed.map .token ++ [.finish (duplicateFinish count)] := by
    have turn := step_turn went second
    have before := shadowed.follower
    generalize next.rpcs second = rpc at turn ⊢
    cases turn with
    | rests rests =>
      rw [rests.stage, rests.yielded]
      exact before
    | followed stage =>
      rcases before with ⟨-, yielded⟩ | ⟨ended, -⟩
      · exact .inr ⟨rfl, _, by rw [Rpc.yield, yielded]⟩
      · rw [ended] at stage
        cases stage
    | refused stage | follows stage | answered stage | opened stage | looped stage | left stage | closed stage =>
      rcases before with ⟨other, -⟩ | ⟨other, -⟩ <;> simp [other] at stage
  have unsubmitted : second ∉ next.session.submitted := by
    rcases submitted_step went with same | ⟨call, late, -, absent, -, grown⟩
    · rw [same]
      exact shadowed.unsubmitted
    · rw [grown, mem_append, mem_singleton, not_or]
      refine ⟨shadowed.unsubmitted, ?_⟩
      rintro rfl
      rcases shadowed.follower with ⟨other, -⟩ | ⟨other, -⟩ <;> rw [other] at absent <;> cases absent
  -- What the first call does.
  have turn := step_turn went first
  have numbered := shadowed.numbered
  have present := shadowed.present
  have covered := shadowed.covered
  have reasons := shadowed.reasons
  suffices facts : (Within (next.rpcs first).stage ∨ (next.rpcs first).stage = .ended) ∧
      tokensOf (next.rpcs first).yielded = (next.rpcs first).cursor.tokens (inc first).base ∧
      (tokensOf (next.rpcs first).yielded).filter (fun token => decide ((inc second).base ≤ token.index)) =
        replayed ∧
      reasonsOf (next.rpcs first).yielded = if (next.rpcs first).stage = .streaming then [] else [.cancelled] from
    ⟨follower, facts.1, facts.2.1, facts.2.2.1, facts.2.2.2, unsubmitted⟩
  generalize next.rpcs first = rpc at turn ⊢
  cases turn with
  | rests rests =>
    rw [rests.stage, rests.cursor, rests.yielded]
    exact ⟨present, numbered, covered, reasons⟩
  | refused stage | follows stage | answered stage | opened stage | followed stage => simp [Within, stage] at present
  | looped streaming =>
    rw [if_pos streaming] at reasons
    obtain ⟨same, ending⟩ := loop_givesUp streaming reasons (quiet rfl streaming)
    exact ⟨.inl (loop_within streaming _), loop_tokens numbered _, same.trans covered, ending⟩
  | left stage =>
    have leaving := stage.resolve_left (quiet rfl)
    rw [leaving] at reasons
    exact ⟨.inl (.inr (.inr rfl)), numbered, covered, reasons⟩
  | closed closing ended cursor yielded =>
    rw [closing] at reasons
    rw [ended, cursor, yielded]
    exact ⟨.inr rfl, numbered, covered, reasons⟩

/-- In every run in which the first call gives up from the moment the second arrives, one request
goes to the engine and both callers get the same answer. -/
theorem duplicate_call_same_answer (cfg : Config X V L S) (tok : BPETokenizer) (incoming : Nat → Incoming)
    (setup : Setup V S) (first second : Nat) (early later : List Event) (late : Bool) (middle last : Replica V S)
    (before : (Replica.new cfg tok incoming setup).after cfg tok incoming early = .ok middle)
    (inFlight : middle.inflight.get? (incoming second).reqId = some first)
    (absent : (middle.rpcs second).stage = .absent)
    (ran : middle.after cfg tok incoming (.arrive second late :: later) = .ok last)
    (replayable : Replayable incoming first second middle)
    (givesUp : Along (Replica.step cfg tok incoming) (GivesUp tok incoming first second) middle
      (.arrive second late :: later)) :
    second ∉ last.session.submitted ∧
      ((last.rpcs first).stage ≠ .streaming → (last.rpcs second).stage = .ended →
        SameAnswer (incoming second).base (last.rpcs first) (last.rpcs second)) := by
  obtain ⟨next, arrived, rest⟩ := run_cons_inv ran
  have shadowed : Shadowed incoming first second ((middle.rpcs first).cursor.tokens 0) last :=
    run_preserves (fun _ _ _ shadowed quiet stepped => Shadowed.step shadowed quiet stepped)
      (Shadowed.start (.after before) inFlight absent replayable arrived) (givesUp.tail arrived) rest
  refine ⟨shadowed.unsubmitted, fun gone ended => ?_⟩
  rcases shadowed.follower with ⟨following, -⟩ | ⟨-, count, yielded⟩
  · rw [ended] at following
    cases following
  · refine ⟨?_, ?_⟩
    · rw [shadowed.covered, yielded, tokensOf_append, tokensOf_tokens]
      exact List.append_nil _
    · rw [shadowed.reasons, if_neg gone, yielded, reasonsOf_append, reasonsOf_tokens]
      rfl

/-- Every call makes the same request. -/
def repeated : Nat → Incoming :=
  fun _ => { request := { prompt := ['A'], params := { maxTokens := 3 }, requestId := "ours" } }

/-- The first call gets two of its three tokens through. -/
def firstServed : List Event := [.arrive 0 false, .step, .fanout, .poll 0 false, .poll 0 false]

theorem duplicate_call_same_answer_cancelled :
    ∃ middle last : Replica Nat Unit,
      (Replica.new counting spelling repeated (serving 1).setup).after counting spelling repeated firstServed = .ok middle ∧
      middle.inflight.get? (repeated 1).reqId = some 0 ∧ (middle.rpcs 1).stage = .absent ∧
      middle.after counting spelling repeated [.arrive 1 false, .poll 1 false, .poll 0 true] = .ok last ∧
      Replayable repeated 0 1 middle ∧
      Along (Replica.step counting spelling repeated) (GivesUp spelling repeated 0 1) middle
        [.arrive 1 false, .poll 1 false, .poll 0 true] ∧
      1 ∉ last.session.submitted ∧ (tokensOf (last.rpcs 1).yielded).length = 2 ∧
      SameAnswer (repeated 1).base (last.rpcs 0) (last.rpcs 1) := by
  obtain ⟨middle, before, inFlight, absent, replayable, givesUp, last, ran, gone, ended, two⟩ :
      Yields ((Replica.new counting spelling repeated (serving 1).setup).after counting spelling repeated firstServed)
        fun middle => middle.inflight.get? (repeated 1).reqId = some 0 ∧ (middle.rpcs 1).stage = .absent ∧
          Replayable repeated 0 1 middle ∧
          Along (Replica.step counting spelling repeated) (GivesUp spelling repeated 0 1) middle
            [.arrive 1 false, .poll 1 false, .poll 0 true] ∧
          Yields (middle.after counting spelling repeated [.arrive 1 false, .poll 1 false, .poll 0 true]) fun last =>
            (last.rpcs 0).stage ≠ .streaming ∧ (last.rpcs 1).stage = .ended ∧
              (tokensOf (last.rpcs 1).yielded).length = 2 := by decide +kernel
  have same := duplicate_call_same_answer counting spelling repeated (serving 1).setup 0 1 firstServed
    [.poll 1 false, .poll 0 true] false middle last before inFlight absent ran replayable givesUp
  exact ⟨middle, last, before, inFlight, absent, ran, replayable, givesUp, same.1, two, same.2 gone ended⟩

/-- The second call attaches after two tokens. -/
theorem duplicate_call_cut_off :
    Yields ((Replica.new counting spelling repeated (serving 1).setup).after counting spelling repeated
        (firstServed ++ [.arrive 1 false, .poll 1 false, .step, .fanout, .poll 0 false, .poll 0 false])) fun last =>
      (tokensOf (last.rpcs 0).yielded).map Token.text = [['B'], ['C'], ['D']] ∧
      reasonsOf (last.rpcs 0).yielded = [.length] ∧
      (last.rpcs 1).stage = .ended ∧ (tokensOf (last.rpcs 1).yielded).map Token.text = [['B'], ['C']] ∧
      reasonsOf (last.rpcs 1).yielded = [.cancelled] := by
  decide +kernel

end Nanoserve.Verified
