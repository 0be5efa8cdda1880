import Nanoserve.Verified.Dispatch

/-! # What a migrated request goes on from

The router knows a generation only through the Token messages it has passed on.
-/

namespace Nanoserve.Verified

open Engine Lib Proto List
open Model (BPETokenizer Text)
open Router (Proxy GenerateBody Visit Progress Ended Failure receive attempt iteration stream reached)

variable {X V L S : Type} {cfg : Config X V L S} {tok : BPETokenizer} {proxy : Proxy} {body : GenerateBody} {now : Rat}
variable {prog : Progress} {visit : Visit V S}

/-- What greedy decoding makes of the prompt and the tokens `delivered` so far. -/
def continuation (cfg : Config X V L S) (tok : BPETokenizer) (body : GenerateBody) (now : Rat)
    (delivered : List Nat) : List Nat :=
  let first : Incoming := { request := body.request now [] }
  (greedyLoop cfg first.params (first.context tok ++ delivered) (body.maxTokens - delivered.length) []).1

/-- The generation when no replica fails. -/
def uninterrupted (cfg : Config X V L S) (tok : BPETokenizer) (body : GenerateBody) (now : Rat) : List Nat :=
  continuation cfg tok body now []

theorem append_continuation {delivered : List Nat} (part : delivered <+: uninterrupted cfg tok body now) :
    delivered ++ continuation cfg tok body now delivered = uninterrupted cfg tok body now := by
  simp only [uninterrupted, continuation, append_nil, length_nil, Nat.sub_zero] at part ⊢
  exact greedyLoop_resume part

theorem produced_continuation (greedy : body.temperature = 0)
    (undisturbed : Undisturbed cfg tok body now prog visit)
    (collisionFree : CollisionFree cfg.blockHash visit.setup.blockSize
      (Prompts tok (visit.incoming (body.request now prog.delivered)))) {rep : Replica V S}
    (attached : Attached cfg tok (visit.incoming (body.request now prog.delivered))
      (boot cfg tok (visit.incoming (body.request now prog.delivered)) visit.setup) visit.call rep) :
    (rep.rpcs visit.call).cursor.produced <+: continuation cfg tok body now prog.delivered := by
  have room := undisturbed.room
  have ours : (visit.incoming (body.request now prog.delivered) visit.call).request =
      body.request now prog.delivered := by simp [Visit.incoming]
  have temperature : (visit.incoming (body.request now prog.delivered) visit.call).request.params.temperature = 0 := by
    rw [ours]
    exact greedy
  have produced := attached.produced_greedy collisionFree temperature
  have remaining : (visit.incoming (body.request now prog.delivered) visit.call).remaining =
      body.maxTokens - prog.delivered.length := by
    simp only [Incoming.remaining, Incoming.base, ours]
    simp only [GenerateBody.request]
    omega
  have prompt : ((visit.incoming (body.request now prog.delivered) visit.call).submission tok).promptTokenIds =
      Incoming.context tok { request := body.request now [] } ++ prog.delivered := by
    simp only [Incoming.submission, Incoming.context, Incoming.promptIds, ours]
    rfl
  rw [remaining, prompt] at produced
  have sameStop : (visit.incoming (body.request now prog.delivered) visit.call).params.ignoreEos =
      (Incoming.params { request := body.request now [] }).ignoreEos := by
    simp only [Incoming.params, ours]
    simp only [GenerateBody.request]
  rwa [greedyLoop_congr sameStop] at produced

/-- Besides being undisturbed, an attempt that breaks off does so after tokens each of which ends a
character. -/
structure Seamless (cfg : Config X V L S) (tok : BPETokenizer) (body : GenerateBody) (now : Rat) (progress : Progress)
    (visit : Visit V S) : Prop extends Undisturbed cfg tok body now progress visit where
  whole : (∀ finish, .finish finish ∉ visit.chunks cfg tok (body.request now progress.delivered)) →
    Whole tok (continuation cfg tok body now progress.delivered)
      (visit.chunks cfg tok (body.request now progress.delivered)).length

/-- The prompts of a replica do not collide. -/
def Distinct (cfg : Config X V L S) (tok : BPETokenizer) (body : GenerateBody) (now : Rat) (progress : Progress)
    (visit : Visit V S) : Prop :=
  CollisionFree cfg.blockHash visit.setup.blockSize (Prompts tok (visit.incoming (body.request now progress.delivered)))

theorem length_of_unfinished {chunks : List GenerateChunk} (unfinished : ∀ finish, .finish finish ∉ chunks) :
    (tokensOf chunks).length = chunks.length := by
  induction chunks with
  | nil => rfl
  | cons chunk _ ih =>
    cases chunk with
    | token =>
      rw [tokensOf_token, length_cons, length_cons, ih fun finish mem =>
        unfinished finish (mem_cons_of_mem _ mem)]
    | finish finish => exact absurd mem_cons_self (unfinished finish)

theorem attempt_broken {resume : List Nat} {rep : String} {failure : Failure}
    (failed : (attempt cfg tok body now rep resume visit).failure = some failure)
    (again : failure.isRejection = false) :
    (attempt cfg tok body now rep resume visit).delivered = [] ∨
      (∀ finish, .finish finish ∉ visit.chunks cfg tok (body.request now resume)) ∧
        (attempt cfg tok body now rep resume visit).delivered.length =
          (visit.chunks cfg tok (body.request now resume)).length := by
  simp only [attempt] at failed ⊢
  split at failed
  case isTrue apart => exact .inl (by rw [if_pos apart])
  case isFalse connected =>
    rw [if_neg connected]
    split at failed
    case h_1 => exact .inl rfl
    case h_2 =>
      obtain ⟨unfinished, delivered⟩ := receive_broken failed again
      exact .inr ⟨unfinished, by rw [delivered, length_map, length_of_unfinished unfinished]⟩

theorem emitted_whole {cursor : Cursor} {ids : List Nat} {count : Nat}
    (read : readTokens tok {} cursor.produced = some cursor) (part : cursor.produced <+: ids)
    (whole : Whole tok ids count) (enough : count ≤ cursor.emitted.length) :
    (cursor.emitted.take count).map Prod.fst = ids.take count ∧
      cut tok count {} cursor.produced = ids.take count ∧
      tok.decode (ids.take count) = some (spoken (cursor.emitted.take count)) ∧
      ¬Utf8.Ragged (spoken (cursor.emitted.take count)) := by
  have voiced := Voiced.empty.read read
  have most : count ≤ cursor.produced.length := Nat.le_trans enough voiced.length
  have sameTake : ∀ index ≤ count, cursor.produced.take index = ids.take index := by
    intro index below
    rw [prefix_iff_eq_take.mp part, take_take, Nat.min_eq_left (Nat.le_trans below most)]
  -- The same holds of what was read, so reading that far sends exactly these pieces.
  have wholeHere : Whole tok cursor.produced count := by
    intro index below
    obtain ⟨before, after, facts⟩ := whole index below
    rw [← sameTake index (Nat.le_of_lt below), ← sameTake (index + 1) below] at facts
    exact ⟨before, after, facts⟩
  obtain ⟨middle, readMiddle, -, sent, decoded, final⟩ := readTokens_whole wholeHere most
  rw [← take_append_drop count cursor.produced, readTokens_append, readMiddle, Option.bind_some] at read
  have first : cursor.emitted.take count = middle.emitted := by
    have lengthEq := congrArg List.length sent
    rw [length_map, length_take, Nat.min_eq_left most] at lengthEq
    rw [← lengthEq]
    exact (prefix_iff_eq_take.mp (emitted_grows read)).symm
  rw [first, ← sameTake count (Nat.le_refl _)]
  exact ⟨sent, cut_whole wholeHere most, decoded, final⟩

/-! ## The whole request -/

structure Migrated (cfg : Config X V L S) (tok : BPETokenizer) (body : GenerateBody) (now : Rat)
    (progress : Progress) : Prop where
  part : progress.delivered <+: uninterrupted cfg tok body now
  text : tok.decode progress.delivered = some (tokenTexts progress.written).flatten
  final : ¬Utf8.Ragged (tokenTexts progress.written).flatten

theorem Migrated.start : Migrated cfg tok body now {} := ⟨ nil_prefix, rfl, Utf8.not_ragged_nil⟩

theorem not_ragged_append {first second : Text} (left : ¬Utf8.Ragged first) (right : ¬Utf8.Ragged second) :
    ¬Utf8.Ragged (first ++ second) := by
  cases second with
  | nil => rwa [append_nil]
  | cons =>
    intro ragged
    rw [Utf8.Ragged, getLast?_append_of_ne_nil _ (cons_ne_nil _ _)] at ragged
    exact right ragged

section Step

variable {next : Progress}

theorem Migrated.continue (migrated : Migrated cfg tok body now prog) (greedy : body.temperature = 0)
    (distinct : Distinct cfg tok body now prog visit) (seamless : Seamless cfg tok body now prog visit)
    (continued : iteration cfg tok proxy body now prog visit = .ok next) :
    Migrated cfg tok body now next ∧
      next.delivered = prog.delivered ++
        cut tok (next.delivered.length - prog.delivered.length) {}
          (visitCursor cfg tok body now prog.delivered visit).produced := by
  rcases iteration_spec prog visit with ⟨_, ended⟩ | ⟨rep, written, goesOn⟩
  · rw [ended] at continued
    cases continued
  obtain ⟨deliveredNext, _, failed, again⟩ := goesOn next continued
  rw [continued] at written
  have written := tokenTexts_of_tokenEvents written
  simp only [reached] at written
  obtain ⟨count, most, delivered, texts⟩ := attempt_spec seamless.toUndisturbed rep
  obtain ⟨last, served, attached⟩ := visit_served seamless.toUndisturbed
  have part := produced_continuation greedy seamless.toUndisturbed distinct attached
  simp only [visitCursor, served] at most delivered texts ⊢
  rw [texts] at written
  rw [delivered] at deliveredNext
  have length : ((attempt cfg tok body now rep prog.delivered visit).delivered).length = count := by
    rw [delivered, length_map, length_take, Nat.min_eq_left most]
  have grown : next.delivered.length - prog.delivered.length = count := by
    rw [deliveredNext, length_append, length_map, length_take, Nat.min_eq_left most]
    omega
  have whole : Whole tok (continuation cfg tok body now prog.delivered) count := by
    rcases attempt_broken failed again with nothing | ⟨unfinished, all⟩
    · rw [nothing, length_nil] at length
      rw [← length]
      exact fun index below => absurd below (Nat.not_lt_zero index)
    · rw [← length, all]
      exact seamless.whole unfinished
  obtain ⟨sent, cutEq, decoded, final⟩ := emitted_whole attached.saying.read part whole most
  have textNext : (tokenTexts next.written).flatten = (tokenTexts prog.written).flatten ++
      spoken ((last.rpcs visit.call).cursor.emitted.take count) := by
    rw [written, flatten_append]
    rfl
  rw [sent] at deliveredNext
  refine ⟨⟨?_, ?_, ?_⟩, ?_⟩
  · rw [deliveredNext, ← append_continuation migrated.part]
    exact (prefix_append_right_inj _).mpr ( take_prefix _ _)
  · rw [deliveredNext, textNext]
    exact decode_append_some migrated.text migrated.final decoded
  · rw [textNext]
    exact not_ragged_append migrated.final final
  · rw [grown, cutEq, deliveredNext]

theorem text_begins {ids : List Nat} {text all : Text} (part : ids <+: uninterrupted cfg tok body now)
    (decoded : tok.decode ids = some text) (final : ¬Utf8.Ragged text)
    (whole : tok.decode (uninterrupted cfg tok body now) = some all) : text <+: all := by
  obtain ⟨_, eq⟩ := part
  rw [← eq] at whole
  obtain ⟨_, -, rfl⟩ := decode_append decoded final whole
  exact prefix_append _ _

theorem Migrated.ended (migrated : Migrated cfg tok body now prog) (greedy : body.temperature = 0)
    (distinct : Distinct cfg tok body now prog visit) (seamless : Seamless cfg tok body now prog visit)
    {all : Text} (whole : tok.decode (uninterrupted cfg tok body now) = some all) {ended : Ended}
    (stopped : iteration cfg tok proxy body now prog visit = .error ended) :
    (tokenTexts ended.progress.written).flatten <+: all := by
  rcases iteration_spec prog visit with ⟨_, same⟩ | ⟨rep, written, -⟩
  · rw [stopped] at same
    cases same
    exact text_begins migrated.part migrated.text migrated.final whole
  · rw [stopped] at written
    have written := tokenTexts_of_tokenEvents written
    simp only [reached] at written
    obtain ⟨count, most, -, texts⟩ := attempt_spec seamless.toUndisturbed rep
    obtain ⟨last, served, attached⟩ := visit_served seamless.toUndisturbed
    have part := produced_continuation greedy seamless.toUndisturbed distinct attached
    simp only [visitCursor, served] at most texts
    -- The pieces passed on are the final text of some of the tokens the call has read.
    obtain ⟨ids, text, inside, decoded, final, spokenEq⟩ := (Voiced.empty.read attached.saying.read).final count most
    rw [written, texts, flatten_append]
    have piece : (((last.rpcs visit.call).cursor.emitted.take count).map Prod.snd).flatten = text := spokenEq
    rw [piece]
    have longer : prog.delivered ++ ids <+: uninterrupted cfg tok body now := by
      rw [← append_continuation migrated.part]
      exact (prefix_append_right_inj _).mpr (inside.trans part)
    exact text_begins longer (decode_append_some migrated.text migrated.final decoded)
      (not_ragged_append migrated.final final) whole

end Step

/-- The engine's outputs over the attempts that were repeated, of each one those up to the last
whose text was passed on. -/
def forwarded (cfg : Config X V L S) (tok : BPETokenizer) (proxy : Proxy) (body : GenerateBody) (now : Rat) :
    Progress → List (Visit V S) → List Nat
  | _, [] => []
  | progress, visit :: visits =>
    match iteration cfg tok proxy body now progress visit with
    | .ok next =>
      cut tok (next.delivered.length - progress.delivered.length) {}
        (visitCursor cfg tok body now progress.delivered visit).produced ++ forwarded cfg tok proxy body now next visits
    | .error _ => []

theorem Migrated.run (greedy : body.temperature = 0) (visits : List (Visit V S)) {last : Progress}
    (migrated : Migrated cfg tok body now prog)
    (distinct : Along (iteration cfg tok proxy body now) (Distinct cfg tok body now) prog visits)
    (seamless : Along (iteration cfg tok proxy body now) (Seamless cfg tok body now) prog visits)
    (ran : run (iteration cfg tok proxy body now) prog visits = .ok last) :
    Migrated cfg tok body now last ∧
      last.delivered = prog.delivered ++ forwarded cfg tok proxy body now prog visits := by
  induction visits generalizing prog with
  | nil =>
    simp only [run_nil, Except.ok.injEq] at ran
    subst ran
    exact ⟨migrated, by simp [forwarded]⟩
  | cons _ _ ih =>
    obtain ⟨_, continued, rest⟩ := run_cons_inv ran
    obtain ⟨migratedNext, delivered⟩ := migrated.continue greedy distinct.1 seamless.1 continued
    obtain ⟨migratedLast, lastDelivered⟩ :=
      ih migratedNext (distinct.tail continued) (seamless.tail continued) rest
    refine ⟨migratedLast, ?_⟩
    simp only [forwarded, continued]
    rw [← append_assoc, ← delivered]
    exact lastDelivered

/-- However often the stream breaks, the tokens the next attempt resumes from are the engine's
output up to the last token passed on, they continue the prompt as the uninterrupted generation
does, and the client's text begins the text of that. -/
theorem migration_is_seamless (cfg : Config X V L S) (tok : BPETokenizer) (proxy : Proxy) (body : GenerateBody)
    (now : Rat) (visits : List (Visit V S)) (greedy : body.temperature = 0)
    (distinct : Along (iteration cfg tok proxy body now) (Distinct cfg tok body now) {} visits)
    (seamless : Along (iteration cfg tok proxy body now) (Seamless cfg tok body now) {} visits) :
    (∀ progress, stream cfg tok proxy body now visits = .ok progress →
      (body.request now progress.delivered).resumeTokens = forwarded cfg tok proxy body now {} visits ∧
      tok.encodeOrdinary body.prompt ++ (body.request now progress.delivered).resumeTokens <+:
        tok.encodeOrdinary body.prompt ++ uninterrupted cfg tok body now) ∧
      ∀ text, tok.decode (uninterrupted cfg tok body now) = some text →
        (tokenTexts (reached (stream cfg tok proxy body now visits)).written).flatten <+: text := by
  refine ⟨fun progress ran => ?_, fun text whole => ?_⟩
  · obtain ⟨migrated, delivered⟩ := Migrated.start.run greedy visits distinct seamless ran
    exact ⟨delivered, (List.prefix_append_right_inj _).mpr migrated.part⟩
  · have outcome := @run_outcome _ _ _ (iteration cfg tok proxy body now) (Migrated cfg tok body now)
      (fun ended => (tokenTexts ended.progress.written).flatten <+: text) _ ?_ ?_ visits {} .start
      (distinct.and seamless)
    · simp only [stream]
      split at outcome
      case h_1 last ran =>
        rw [ran]
        exact text_begins outcome.part outcome.text outcome.final whole
      case h_2 ended ran =>
        rw [ran]
        exact outcome
    · rintro progress visit next migrated ⟨distinct, seamless⟩ continued
      exact (migrated.continue greedy distinct seamless continued).1
    · rintro progress visit ended migrated ⟨distinct, seamless⟩ stopped
      exact migrated.ended greedy distinct seamless whole stopped

theorem collisionFree_of_short {blockHash : Int → List Nat → Int} {size : Nat} {Occurs : List Nat → Prop}
    (short : ∀ tokens, Occurs tokens → links blockHash size tokens = []) :
    CollisionFree blockHash size Occurs where
  injective first second left _ link inside := by simp [short first left] at inside
  rootless tokens occurs link inside := by simp [short tokens occurs] at inside

theorem distinct_serving : Along (iteration counting spelling {} (asking ['A'] 3) 0)
    (Distinct counting spelling (asking ['A'] 3) 0) {} [serving 1, serving 5] := by
  refine along_pair (collisionFree_of_short fun tokens prompts => ?_) fun prog delivered =>
    collisionFree_of_short fun tokens prompts => ?_
  · rcases serving_prompts prompts with rfl | rfl <;> decide +kernel
  · rw [delivered] at prompts
    rcases serving_prompts prompts with rfl | rfl <;> decide +kernel

theorem seamless_serving : Along (iteration counting spelling {} (asking ['A'] 3) 0)
    (Seamless counting spelling (asking ['A'] 3) 0) {} [serving 1, serving 5] := by
  refine along_pair ⟨⟨by decide, serving_alone rfl 1, by decide +kernel⟩, fun _ => ?_⟩ fun prog delivered =>
    ⟨⟨?_, serving_alone rfl 5, ?_⟩, fun unfinished => ?_⟩
  · have one : ((serving 1).chunks counting spelling ((asking ['A'] 3).request 0 [])).length = 1 := by decide +kernel
    intro index below
    obtain rfl : index = 0 := Nat.lt_one_iff.mp (one ▸ below)
    exact ⟨[], ['B'], by decide +kernel, by decide +kernel, by decide, by decide⟩
  · rw [delivered]
    decide
  · rw [delivered]
    decide +kernel
  · -- The second replica serves the request to its end.
    rw [delivered] at unfinished
    exact absurd (by decide +kernel) (unfinished { reason := .length, outputTokens := 3 })

theorem migration_is_seamless_pair :
    (asking ['A'] 3).temperature = 0 ∧
      Along (iteration counting spelling {} (asking ['A'] 3) 0) (Distinct counting spelling (asking ['A'] 3) 0) {}
        [serving 1, serving 5] ∧
      Along (iteration counting spelling {} (asking ['A'] 3) 0) (Seamless counting spelling (asking ['A'] 3) 0) {}
        [serving 1, serving 5] ∧
      ∀ text, spelling.decode (uninterrupted counting spelling (asking ['A'] 3) 0) = some text →
        (tokenTexts (reached (stream counting spelling {} (asking ['A'] 3) 0 [serving 1, serving 5])).written).flatten <+:
          text :=
  ⟨rfl, distinct_serving, seamless_serving,
    (migration_is_seamless counting spelling {} (asking ['A'] 3) 0 [serving 1, serving 5] rfl distinct_serving
      seamless_serving).2⟩

/-- The first token ends in the middle of a character and the second one ends it. -/
theorem migration_forgets_half_character :
    (Yields (stream counting spelling {} (asking ['h', 'i'] 3) 0 [serving 1]) fun progress =>
        ((asking ['h', 'i'] 3).request 0 progress.delivered).resumeTokens = [258]) ∧
      forwarded counting spelling {} (asking ['h', 'i'] 3) 0 {} [serving 1] = [257, 258] ∧
      spelling.decode (uninterrupted counting spelling (asking ['h', 'i'] 3) 0) = some "aébcd".toList ∧
      (tokenTexts (reached (stream counting spelling {} (asking ['h', 'i'] 3) 0
        [serving 1, serving 5])).written).flatten = "aébcdef".toList := by
  decide +kernel

end Nanoserve.Verified
