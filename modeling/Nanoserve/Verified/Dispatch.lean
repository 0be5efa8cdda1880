import Nanoserve.Router.Proxy
import Nanoserve.Verified.ReplicaRun

/-! # What the client of a dispatched request gets

An attempt passes on some of the first Token messages of a call.
-/

namespace Nanoserve.Verified

open Engine Lib Proto List
open Model (BPETokenizer Text)
open Router (Proxy GenerateBody Visit Progress Ended Attempt ClientEvent Failure receive attempt iteration
  stream reached Ring)
open PrefixCache (hashChain)

variable {X V L S : Type} {cfg : Config X V L S} {tok : BPETokenizer} {proxy : Proxy} {body : GenerateBody} {now : Rat}

/-- The texts of the token events. -/
def tokenTexts (events : List ClientEvent) : List Text :=
  events.filterMap fun
    | .token text _ => some text
    | _ => none

/-- The texts of the token events, each with its index. -/
def tokenEvents (events : List ClientEvent) : List (Text × Nat) :=
  events.filterMap fun
    | .token text index => some (text, index)
    | _ => none

@[simp] theorem tokenEvents_append (first second : List ClientEvent) :
    tokenEvents (first ++ second) = tokenEvents first ++ tokenEvents second := filterMap_append

theorem tokenTexts_eq (events : List ClientEvent) : tokenTexts events = (tokenEvents events).map Prod.fst := by
  induction events with
  | nil => rfl
  | cons event _ ih =>
    cases event with
    | token text => exact congrArg (text :: ·) ih
    | done | rejected => exact ih

theorem isRejection_rejected (message : String) : (Failure.rejected message).isRejection = true := by
  have starts : ("rejected: ".toList.take 8 == "rejected".toList) = true := by decide
  exact starts

theorem receive_spec (rep : String) (broken : Failure) (chunks : List GenerateChunk) :
    ∃ count ≤ (tokensOf chunks).length,
      (receive rep broken chunks).delivered = ((tokensOf chunks).take count).map Token.tokenId ∧
      tokenEvents (receive rep broken chunks).written =
        ((tokensOf chunks).take count).map fun token => (token.text, token.index) := by
  induction chunks with
  | nil => exact ⟨0, Nat.le_refl _, rfl, rfl⟩
  | cons chunk _ ih =>
    cases chunk with
    | token =>
      obtain ⟨count, most, delivered, written⟩ := ih
      refine ⟨count + 1, Nat.succ_le_succ most, ?_, ?_⟩
      · simp [receive, delivered]
      · simpa [receive, tokenEvents] using written
    | finish =>
      refine ⟨0, Nat.zero_le _, ?_, ?_⟩
      · simp only [receive]
        split <;> rfl
      · simp only [receive]
        split <;> rfl

theorem receive_broken {rep : String} {broken failure : Failure} {chunks : List GenerateChunk}
    (failed : (receive rep broken chunks).failure = some failure) (again : failure.isRejection = false) :
    (∀ finish, .finish finish ∉ chunks) ∧
      (receive rep broken chunks).delivered = (tokensOf chunks).map Token.tokenId := by
  induction chunks with
  | nil => exact ⟨by simp, rfl⟩
  | cons chunk _ ih =>
    cases chunk with
    | token =>
      obtain ⟨unfinished, delivered⟩ := ih failed
      exact ⟨by simpa using unfinished, by simp [receive, delivered]⟩
    | finish =>
      simp only [receive] at failed
      split at failed
      · obtain rfl := Option.some.inj failed
        rw [isRejection_rejected] at again
        cases again
      · cases failed

structure Undisturbed (cfg : Config X V L S) (tok : BPETokenizer) (body : GenerateBody) (now : Rat)
    (progress : Progress) (visit : Visit V S) : Prop where
  room : progress.delivered.length < body.maxTokens
  alone : ∀ call, call ≠ visit.call → (visit.incoming (body.request now progress.delivered) call).reqId ≠
    (visit.incoming (body.request now progress.delivered) visit.call).reqId
  retained : Along (Replica.step cfg tok (visit.incoming (body.request now progress.delivered)))
    (Retains cfg visit.call) (Replica.new cfg tok (visit.incoming (body.request now progress.delivered)) visit.setup)
    visit.events

/-- The variables of our call when the attempt is over. -/
def visitCursor (cfg : Config X V L S) (tok : BPETokenizer) (body : GenerateBody) (now : Rat) (resume : List Nat)
    (visit : Visit V S) : Cursor :=
  match visit.replica cfg tok (body.request now resume) with
  | .ok replica => (replica.rpcs visit.call).cursor
  | .error _ => {}

theorem tokens_tokenId (base : Nat) (cursor : Cursor) :
    (cursor.tokens base).map Token.tokenId = cursor.emitted.map Prod.fst := by
  apply ext_getElem?
  intro index
  simp [Cursor.tokens, Function.comp_def]

theorem tokens_text (base : Nat) (cursor : Cursor) :
    (cursor.tokens base).map Token.text = cursor.emitted.map Prod.snd := by
  apply ext_getElem?
  intro index
  simp [Cursor.tokens, Function.comp_def]

theorem tokensOf_take (chunks : List GenerateChunk) (count : Nat) : tokensOf (chunks.take count) <+: tokensOf chunks :=
  ( take_prefix count chunks).filterMap _

section Attempt

variable {prog : Progress} {visit : Visit V S}

theorem visit_served (undisturbed : Undisturbed cfg tok body now prog visit) :
    ∃ rep, visit.replica cfg tok (body.request now prog.delivered) = .ok rep ∧
      Attached cfg tok (visit.incoming (body.request now prog.delivered))
        (boot cfg tok (visit.incoming (body.request now prog.delivered)) visit.setup) visit.call rep :=
  served undisturbed.alone visit.events undisturbed.retained

theorem attempt_spec (undisturbed : Undisturbed cfg tok body now prog visit) (rep : String) :
    ∃ count ≤ (visitCursor cfg tok body now prog.delivered visit).emitted.length,
      (attempt cfg tok body now rep prog.delivered visit).delivered =
        ((visitCursor cfg tok body now prog.delivered visit).emitted.take count).map Prod.fst ∧
      tokenTexts (attempt cfg tok body now rep prog.delivered visit).written =
        ((visitCursor cfg tok body now prog.delivered visit).emitted.take count).map Prod.snd := by
  obtain ⟨reached, served, attached⟩ := visit_served undisturbed
  simp only [attempt, visitCursor, served]
  split
  · exact ⟨0, Nat.zero_le _, by simp, by simp [tokenTexts]⟩
  · split
    · exact ⟨0, Nat.zero_le _, by simp, by simp [tokenTexts]⟩
    · simp only [Visit.chunks, served]
      obtain ⟨count, most, delivered, written⟩ := receive_spec rep visit.broken
        ((reached.rpcs visit.call).yielded.take visit.received)
      have first := tokensOf_take (reached.rpcs visit.call).yielded visit.received
      rw [attached.saying.tokens] at first
      have taken := prefix_iff_eq_take.mp first
      have short := first.length_le
      simp only [Cursor.tokens, length_mapIdx] at short
      refine ⟨count, Nat.le_trans most short, ?_, ?_⟩
      · rw [delivered, taken, take_take, Nat.min_eq_left most, map_take, tokens_tokenId, map_take]
      · rw [tokenTexts_eq, written, map_map, taken, take_take, Nat.min_eq_left most]
        exact (map_take ..).trans ((congrArg (take count) (tokens_text _ _)).trans (map_take ..).symm)

end Attempt

theorem iteration_spec (prog : Progress) (visit : Visit V S) :
    (∃ err, iteration cfg tok proxy body now prog visit = .error ⟨prog, err⟩) ∨
      ∃ rep,
        tokenEvents (reached (iteration cfg tok proxy body now prog visit)).written =
          tokenEvents prog.written ++
            tokenEvents (attempt cfg tok body now rep prog.delivered visit).written ∧
        ∀ next, iteration cfg tok proxy body now prog visit = .ok next →
          next.delivered = prog.delivered ++ (attempt cfg tok body now rep prog.delivered visit).delivered ∧
          ∃ failure, (attempt cfg tok body now rep prog.delivered visit).failure = some failure ∧
            failure.isRejection = false := by
  simp only [iteration]
  split
  · exact .inl ⟨_, rfl⟩
  · rename_i picked _ _
    refine .inr ⟨picked.id, ?_⟩
    simp only [Router.settle]
    split
    case h_1 => exact ⟨by simp [reached, Progress.dispatch], fun _ continued => nomatch continued⟩
    case h_2 failure failed =>
      split
      · exact ⟨by simp [reached, Progress.dispatch], fun _ continued => nomatch continued⟩
      · split
        · exact ⟨by simp [reached, Progress.dispatch, tokenEvents], fun _ continued => nomatch continued⟩
        · rename_i again
          split
          · refine ⟨by simp [reached, Progress.dispatch], fun next continued => ?_⟩
            obtain rfl := Except.ok.inj continued
            exact ⟨rfl, failure, failed, by simpa using again⟩
          · exact ⟨by simp [reached, Progress.dispatch], fun _ continued => nomatch continued⟩

theorem tokenTexts_of_tokenEvents {events before after : List ClientEvent}
    (same : tokenEvents events = tokenEvents before ++ tokenEvents after) :
    tokenTexts events = tokenTexts before ++ tokenTexts after := by
  rw [tokenTexts_eq, same, map_append, ← tokenTexts_eq, ← tokenTexts_eq]

/-- Two of the merged tokens end or begin in the middle of a character. -/
def spelling : BPETokenizer where
  classes := ⟨Char.isAlphanum, Char.isDigit, Char.isWhitespace⟩
  merges := ⟨[((104, 105), 256), ((97, 0xC3), 257), ((0xA9, 98), 258), ((99, 100), 259), ((101, 102), 260)], by decide⟩
  specialTokens := .empty
  vocab := _
  rebuilt := rfl

def pair : Ring :=
  let ring := ((Ring.new 1 (.finite (1 / 4))).add "a" "host:1").add "b" "host:2"
  (ring.setReady "a" true).setReady "b" true

/-- A greedy request. -/
def asking (prompt : Text) (maxTokens : Nat) : GenerateBody := { prompt, maxTokens, requestId := "ours" }

/-- Our call alone on a replica, which serves it to its end. -/
def serving (received : Nat) : Visit Nat Unit where
  ring := pair
  setup := { numBlocks := 16, blockSize := 4, zero := 0, rng := (), positive := by decide }
  others := fun _ => { request := { prompt := ['A'], params := { maxTokens := 1 }, requestId := "other" } }
  call := 0
  events := .arrive 0 false :: (replicate 3 [Event.step, .fanout, .poll 0 false, .poll 0 false]).flatten
  received
  broken := .status .unavailable "gone"

theorem serving_other (req : GenerateRequest) (received : Nat) {call : Nat} (other : call ≠ 0) :
    (serving received).incoming req call =
      { request := { prompt := ['A'], params := { maxTokens := 1 }, requestId := "other" } } :=
  Function.update_of_ne other _ _

theorem serving_alone {req : GenerateRequest} (ours : req.requestId = "ours") (received call : Nat)
    (other : call ≠ 0) :
    ((serving received).incoming req call).reqId ≠ ((serving received).incoming req 0).reqId := by
  have same : ((serving received).incoming req 0).reqId = "ours" := by
    simp [Visit.incoming, serving, Incoming.reqId, ours]
  rw [same, serving_other req received other]
  decide

theorem serving_prompts {req : GenerateRequest} {received : Nat} {tokens : List Nat}
    (prompts : Prompts spelling ((serving received).incoming req) tokens) :
    tokens = (Incoming.submission spelling { request := req }).promptTokenIds ∨ tokens = [65] := by
  obtain ⟨call, rfl⟩ := prompts
  by_cases ours : call = 0
  · subst ours
    exact .inl rfl
  · refine .inr ?_
    rw [serving_other req received ours]
    decide +kernel

theorem first_attempt : Yields (iteration counting spelling {} (asking ['A'] 3) 0 {} (serving 1)) fun next =>
    next.delivered = [66] := by decide +kernel

theorem along_pair {Cond : Progress → Visit Nat Unit → Prop} (first : Cond {} (serving 1))
    (second : ∀ prog, prog.delivered = [66] → Cond prog (serving 5)) :
    Along (iteration counting spelling {} (asking ['A'] 3) 0) Cond {} [serving 1, serving 5] := by
  obtain ⟨next, went, delivered⟩ := first_attempt
  rw [along_cons went]
  refine ⟨first, second next delivered, ?_⟩
  split <;> trivial

theorem attempt_within {prog : Progress} {visit : Visit V S}
    (undisturbed : Undisturbed cfg tok body now prog visit) (rep : String) :
    (tokenTexts (attempt cfg tok body now rep prog.delivered visit).written).length =
        (attempt cfg tok body now rep prog.delivered visit).delivered.length ∧
      prog.delivered.length + (attempt cfg tok body now rep prog.delivered visit).delivered.length ≤
        body.maxTokens := by
  obtain ⟨_, most, delivered, written⟩ := attempt_spec undisturbed rep
  obtain ⟨_, served, attached⟩ := visit_served undisturbed
  have fits := attached.produced_le
  have voiced := Voiced.empty.read attached.saying.read
  have remaining : (visit.incoming (body.request now prog.delivered) visit.call).remaining =
      max 1 (body.maxTokens - prog.delivered.length) := by
    simp [Visit.incoming, Incoming.remaining, Incoming.base, GenerateBody.request]
  have room := undisturbed.room
  have length := voiced.length
  simp only [visitCursor, served] at most delivered written
  rw [remaining] at fits
  refine ⟨by rw [delivered, written, length_map, length_map], ?_⟩
  rw [delivered, length_map, length_take]
  omega

/-- However often the stream breaks and wherever it does, a client gets no more tokens than it asked
for, as long as every attempt is undisturbed. -/
theorem token_events_le (cfg : Config X V L S) (tok : BPETokenizer) (proxy : Proxy) (body : GenerateBody) (now : Rat)
    (visits : List (Visit V S))
    (undisturbed : Along (iteration cfg tok proxy body now) (Undisturbed cfg tok body now) {} visits) :
    (tokenTexts (reached (stream cfg tok proxy body now visits)).written).length ≤ body.maxTokens := by
  -- As long as `stream` goes on, every token event is a delivered token.
  have outcome := @run_outcome _ _ _ (iteration cfg tok proxy body now)
    (fun progress => (tokenTexts progress.written).length = progress.delivered.length ∧
      progress.delivered.length ≤ body.maxTokens)
    (fun ended => (tokenTexts ended.progress.written).length ≤ body.maxTokens) _ ?_ ?_ visits {}
    ⟨rfl, Nat.zero_le _⟩ undisturbed
  · simp only [stream]
    split at outcome
    case h_1 last ran =>
      rw [ran]
      exact Nat.le_trans (Nat.le_of_eq outcome.1) outcome.2
    case h_2 ended ran =>
      rw [ran]
      exact outcome
  · rintro progress visit next ⟨counted, -⟩ undisturbed continued
    rcases iteration_spec progress visit with ⟨err, ended⟩ | ⟨replica, written, goesOn⟩
    · rw [ended] at continued
      cases continued
    · have within := attempt_within undisturbed replica
      rw [continued] at written
      simp only [reached] at written
      rw [tokenTexts_of_tokenEvents written, (goesOn next continued).1, List.length_append, List.length_append]
      omega
  · rintro progress visit ended ⟨counted, most⟩ undisturbed raised
    rcases iteration_spec progress visit with ⟨err, same⟩ | ⟨replica, written, -⟩
    · rw [raised] at same
      cases same
      exact Nat.le_trans (Nat.le_of_eq counted) most
    · have within := attempt_within undisturbed replica
      rw [raised] at written
      simp only [reached] at written
      rw [tokenTexts_of_tokenEvents written, List.length_append]
      omega

theorem undisturbed_serving : Along (iteration counting spelling {} (asking ['A'] 3) 0)
    (Undisturbed counting spelling (asking ['A'] 3) 0) {} [serving 1, serving 5] := by
  refine along_pair ⟨by decide, serving_alone rfl 1, by decide +kernel⟩ fun prog delivered => ?_
  refine ⟨?_, serving_alone rfl 5, ?_⟩
  · rw [delivered]
    decide
  · rw [delivered]
    decide +kernel

theorem token_events_le_pair :
    Along (iteration counting spelling {} (asking ['A'] 3) 0) (Undisturbed counting spelling (asking ['A'] 3) 0) {}
        [serving 1, serving 5] ∧
      (tokenTexts (reached (stream counting spelling {} (asking ['A'] 3) 0 [serving 1, serving 5])).written).length ≤ 3 :=
  ⟨undisturbed_serving,
    token_events_le counting spelling {} (asking ['A'] 3) 0 [serving 1, serving 5] undisturbed_serving⟩

/-- The stream breaks between the last token and the Finish message. -/
theorem token_past_maxTokens :
    (asking ['A'] 2).maxTokens = 2 ∧
      (tokenTexts (reached (stream counting spelling {} (asking ['A'] 2) 0 [serving 2, serving 5])).written).length =
        3 := by
  decide +kernel

end Nanoserve.Verified
