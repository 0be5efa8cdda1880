import Mathlib.Data.List.Induction
import Nanoserve.Engine.Connections
import Nanoserve.Verified.Streaming

/-! # What a connection has sent

The loop decodes everything it has read after every token and sends what is new.
-/

namespace Nanoserve.Verified

open Engine Lib Model Proto List

variable {tok : BPETokenizer} {ids : List Nat}

/-- `part` is the longest beginning of the tokens whose text does not end in a replacement
character. -/
structure FinalPart (tok : BPETokenizer) (ids part : List Nat) (text : Text) : Prop where
  within : part <+: ids
  decoded : tok.decode part = some text
  final : ¬Utf8.Ragged text
  longest : ∀ other otherText, other <+: ids → tok.decode other = some otherText → ¬Utf8.Ragged otherText →
    other.length ≤ part.length

namespace FinalPart

variable {part : List Nat} {text : Text}

theorem nil : FinalPart tok [] [] [] where
  within := prefix_rfl
  decoded := decode_nil
  final := Utf8.not_ragged_nil
  longest _ _ inside _ _ := inside.length_le

theorem whole (decoded : tok.decode ids = some text) (final : ¬Utf8.Ragged text) : FinalPart tok ids ids text where
  within := prefix_rfl
  decoded := decoded
  final := final
  longest _ _ inside _ _ := inside.length_le

section

variable (finalPart : FinalPart tok ids part text)
include finalPart

theorem withhold {tokenId : Nat} {more : Text}
    (decoded : tok.decode (ids ++ [tokenId]) = some more) (ragged : Utf8.Ragged more) :
    FinalPart tok (ids ++ [tokenId]) part text where
  within := finalPart.within.trans (prefix_append _ _)
  decoded := finalPart.decoded
  final := finalPart.final
  longest := by
    intro other otherText inside otherDecoded otherFinal
    cases prefix_concat_iff.mp inside with
    | inl all =>
      subst all
      obtain rfl := Option.some.inj (otherDecoded.symm.trans decoded)
      exact absurd ragged otherFinal
    | inr before => exact finalPart.longest other otherText before otherDecoded otherFinal

theorem grows {more : List Nat} {whole : Text}
    (decoded : tok.decode (ids ++ more) = some whole) : text <+: whole := by
  obtain ⟨_, restEq⟩ := finalPart.within
  rw [← restEq, append_assoc] at decoded
  obtain ⟨added, -, wholeEq⟩ := decode_append finalPart.decoded finalPart.final decoded
  exact ⟨added, wholeEq.symm⟩

theorem complete {more : List Nat}
    (decoded : tok.decode (ids ++ more) = some text) : tok.decode ids = some text := by
  obtain ⟨rest, restEq⟩ := finalPart.within
  rw [← restEq, append_assoc] at decoded
  obtain ⟨added, addedEq, textEq⟩ := decode_append finalPart.decoded finalPart.final decoded
  obtain rfl : added = [] := by simpa using textEq
  -- So the tokens after the final part spell no byte at all.
  obtain ⟨_, spelled, silent⟩ := decode_eq_some.mp addedEq
  rw [Utf8.decode_eq_nil.mp silent, bytes_append, Option.bind_eq_some_iff] at spelled
  obtain ⟨_, leftBytes, nothing⟩ := spelled
  obtain ⟨_, -, both⟩ := Option.map_eq_some_iff.mp nothing
  rw [(append_eq_nil_iff.mp both).1] at leftBytes
  have restDecoded : tok.decode rest = some [] := decode_eq_some.mpr ⟨[], leftBytes, rfl⟩
  rw [← restEq, decode_append_some finalPart.decoded finalPart.final restDecoded, append_nil]

theorem eq_whole {all : Text} (decoded : tok.decode ids = some all)
    (final : ¬Utf8.Ragged all) : text = all := by
  have most := finalPart.longest ids all prefix_rfl decoded final
  obtain rfl : part = ids := finalPart.within.eq_of_length_le most
  exact Option.some.inj (finalPart.decoded.symm.trans decoded)

end

end FinalPart

structure Speaks (tok : BPETokenizer) (cursor : Cursor) : Prop where
  chars : cursor.emittedChars = (spoken cursor.emitted).length
  finalPart : ∃ part, FinalPart tok cursor.produced part (spoken cursor.emitted)

theorem Speaks.empty : Speaks tok {} := ⟨rfl, [], .nil⟩

theorem Speaks.accept {cursor next : Cursor} (speaks : Speaks tok cursor) {tokenId : Nat} {piece : Option Text}
    (accepted : cursor.accept tok tokenId = some (next, piece)) : Speaks tok next := by
  obtain ⟨chars, part, finalPart⟩ := speaks
  obtain ⟨text, decoded, taken⟩ := accept_cases accepted
  obtain ⟨more, textEq⟩ := finalPart.grows decoded
  cases taken with
  | inl sends =>
    obtain ⟨final, -, -, rfl⟩ := sends
    have spokenAll : spoken (cursor.emitted ++ [(tokenId, text.drop cursor.emittedChars)]) = text := by
      rw [spoken_snoc, chars, ← textEq, drop_left]
    refine ⟨by rw [spokenAll], cursor.produced ++ [tokenId], ?_⟩
    rw [spokenAll]
    exact .whole decoded final
  | inr silent =>
    obtain ⟨why, -, rfl⟩ := silent
    refine ⟨chars, ?_⟩
    by_cases ragged : Utf8.Ragged text
    · exact ⟨part, finalPart.withhold decoded ragged⟩
    · -- The text is final but no longer than what was said, so it is what was said.
      have short := why.resolve_left ragged
      have nothing : more = [] := by
        rw [chars, ← textEq, length_append] at short
        exact length_eq_zero_iff.mp (by omega)
      rw [nothing, append_nil] at textEq
      refine ⟨cursor.produced ++ [tokenId], ?_⟩
      rw [textEq]
      exact .whole decoded ragged

section Connection

variable {μ : Type} {door : Door μ}

structure Reports (door : Door μ) (tok : BPETokenizer) (connection : Connection μ) : Prop where
  speaks : Speaks tok connection.cursor
  text : connection.sent.flatMap door.textOf = spoken connection.cursor.emitted

theorem Reports.opened : Reports door tok (.opened door) := ⟨.empty, door.opening_silent⟩

theorem Reports.accept {connection : Connection μ} (reports : Reports door tok connection) {tokenId : Nat} {text : Text}
    (decoded : tok.decode (connection.cursor.produced ++ [tokenId]) = some text) :
    Reports door tok (connection.accept door tok tokenId) ∧
      (connection.accept door tok tokenId).cursor.produced = connection.cursor.produced ++ [tokenId] ∧
      (connection.accept door tok tokenId).stage = connection.stage := by
  cases accepted : connection.cursor.accept tok tokenId with
  | none =>
    simp only [Cursor.accept, decoded] at accepted
    split at accepted
    · cases accepted
    · split at accepted <;> cases accepted
  | some result =>
    obtain ⟨_, _⟩ := result
    have speaks := reports.speaks.accept accepted
    obtain ⟨_, -, ⟨-, -, rfl, rfl⟩ | ⟨-, rfl, rfl⟩⟩ := accept_cases accepted
    · simp only [Connection.accept, accepted]
      refine ⟨⟨speaks, ?_⟩, trivial, trivial⟩
      rw [flatMap_append, reports.text, spoken_snoc]
      simp [door.textOf_piece]
    · simp only [Connection.accept, accepted]
      exact ⟨⟨speaks, reports.text⟩, trivial, trivial⟩

/-- The connection after a list of tokens has been read. -/
def transcript (door : Door μ) (tok : BPETokenizer) (ids : List Nat) : Connection μ :=
  ids.foldl (Connection.accept door tok) (.opened door)

theorem transcript_append_singleton (ids : List Nat) (tokenId : Nat) :
    transcript door tok (ids ++ [tokenId]) = (transcript door tok ids).accept door tok tokenId := by
  rw [transcript, foldl_append]
  rfl

theorem reports_transcript {ids : List Nat} {text : Text} (decoded : tok.decode ids = some text) :
    Reports door tok (transcript door tok ids) ∧ (transcript door tok ids).cursor.produced = ids ∧
      (transcript door tok ids).stage = .reading := by
  induction ids using reverseRecOn generalizing text with
  | nil => exact ⟨.opened, rfl, rfl⟩
  | append_singleton _ tokenId ih =>
    obtain ⟨_, decodedBefore⟩ := decode_of_append decoded
    obtain ⟨reports, produced, stage⟩ := ih decodedBefore
    obtain ⟨next, producedNext, stageNext⟩ :=
      @Reports.accept tok μ door _ reports tokenId text (by rw [produced]; exact decoded)
    rw [transcript_append_singleton]
    rw [produced] at producedNext
    exact ⟨next, producedNext, stageNext.trans stage⟩

theorem poll_generate (rpc : Rpc) (base : Nat) (cancelled : Bool) (received : List Nat) (stage : Connection.Stage) :
    let connection : Connection GenerateChunk := { stage, cursor := rpc.cursor, sent := rpc.yielded }
    let polled := connection.poll (.generate base) tok ⟨rpc.queue, rpc.finishReason, received⟩ cancelled
    polled.cursor = (rpc.loop tok base cancelled).cursor ∧ polled.sent = (rpc.loop tok base cancelled).yielded := by
  cases cancelled with
  | true => exact ⟨rfl, rfl⟩
  | false =>
    cases queued : rpc.queue with
    | nil =>
      simp only [Connection.poll, Rpc.loop, queued, if_neg Bool.false_ne_true]
      split <;> exact ⟨rfl, rfl⟩
    | cons tokenId =>
      simp only [Connection.poll, Rpc.loop, queued, if_neg Bool.false_ne_true, Connection.accept, Rpc.accept]
      cases rpc.cursor.accept tok tokenId with
      | none => exact ⟨rfl, rfl⟩
      | some result =>
        obtain ⟨cursor, piece⟩ := result
        cases piece <;> exact ⟨rfl, rfl⟩

end Connection

theorem bytes_isSome (known : ∀ tokenId ∈ ids, (tok.vocab tokenId).isSome) : ∃ bytes, tok.bytes ids = some bytes := by
  induction ids with
  | nil => exact ⟨[], rfl⟩
  | cons tokenId _ ih =>
    obtain ⟨right, rightBytes⟩ := ih fun other mem => known other (mem_cons_of_mem _ mem)
    obtain ⟨left, leftBytes⟩ := Option.isSome_iff_exists.mp (known tokenId mem_cons_self)
    exact ⟨left ++ right, by rw [bytes_cons, leftBytes, rightBytes]; rfl⟩

theorem loop_reads {base : Nat} {rpc : Rpc} {connection : Connection GenerateChunk} (queued : rpc.queue = ids)
    (cursor : rpc.cursor = connection.cursor) (yielded : rpc.yielded = connection.sent) :
    let last := (fun rpc : Rpc => rpc.loop tok base false)^[ids.length] rpc
    let read := ids.foldl (Connection.accept (.generate base) tok) connection
    last.queue = [] ∧ last.finishReason = rpc.finishReason ∧ last.cursor = read.cursor ∧ last.yielded = read.sent := by
  induction ids generalizing rpc connection with
  | nil => exact ⟨queued, rfl, cursor, yielded⟩
  | cons _ ids ih =>
    have once := @poll_generate tok rpc base false [] connection.stage
    simp only [Connection.poll, queued, if_neg Bool.false_ne_true, cursor, yielded] at once
    have went : (rpc.loop tok base false).queue = ids ∧ (rpc.loop tok base false).finishReason = rpc.finishReason := by
      simp only [Rpc.loop, queued, if_neg Bool.false_ne_true, Rpc.accept]
      split <;> exact ⟨rfl, rfl⟩
    obtain ⟨empty, reason, rest⟩ := ih went.1 once.1.symm once.2.symm
    exact ⟨empty, reason.trans went.2, rest⟩

/-- A call of `Generate` that has every token of its request on its queue, and the reason it ended
for, sends what the connection sends for these tokens and then the finish, which counts all of them. -/
theorem generate_sends_transcript (tok : BPETokenizer) (base : Nat) (ids : List Nat) (reason : FinishReason)
    (known : ∀ tokenId ∈ ids, (tok.vocab tokenId).isSome) :
    let last := (fun rpc : Rpc => rpc.loop tok base false)^[ids.length + 1] { queue := ids, finishReason := some reason }
    last.stage = .leaving ∧ last.yielded = (transcript (.generate base) tok ids).sent ++
      [.finish { reason := finishOf reason, outputTokens := base + ids.length }] := by
  obtain ⟨bytes, spelled⟩ := bytes_isSome known
  obtain ⟨-, produced, -⟩ :=
    @reports_transcript tok _ (.generate base) ids _ (decode_eq_some.mpr ⟨bytes, spelled, rfl⟩)
  obtain ⟨queue, ended, cursor, yielded⟩ := @loop_reads tok ids base { queue := ids, finishReason := some reason }
    (.opened (.generate base)) rfl rfl rfl
  rw [transcript] at produced ⊢
  rw [Function.iterate_succ_apply']
  generalize (fun rpc : Rpc => rpc.loop tok base false)^[ids.length] _ = rpc at queue ended cursor yielded ⊢
  simp only [Rpc.loop, queue, ended, Rpc.yield, if_neg Bool.false_ne_true, Option.isSome_some, if_true,
    Option.getD_some, cursor, yielded, produced]
  trivial

/-- Whatever tokens of the vocabulary have been read, either front end has sent the text of the
longest final beginning of them. -/
theorem text_never_retracted {μ : Type} (door : Door μ) (tok : BPETokenizer) (ids : List Nat)
    (known : ∀ tokenId ∈ ids, (tok.vocab tokenId).isSome) :
    (transcript door tok ids).stage = .reading ∧
      ∃ part text, FinalPart tok ids part text ∧ (transcript door tok ids).sent.flatMap door.textOf = text ∧
        ∀ more whole, tok.decode (ids ++ more) = some whole → text <+: whole := by
  obtain ⟨bytes, spelled⟩ := bytes_isSome known
  obtain ⟨reports, produced, stage⟩ := @reports_transcript tok μ door ids _ (decode_eq_some.mpr ⟨bytes, spelled, rfl⟩)
  obtain ⟨part, finalPart⟩ := reports.speaks.finalPart
  rw [produced] at finalPart
  exact ⟨stage, part, _, finalPart, reports.text, fun more whole decoded => finalPart.grows decoded⟩

/-- Token 256 ends in the first half of a character. -/
def halves : BPETokenizer where
  classes := asciiClasses
  merges := ⟨[((97, 0xC3), 256)], by decide⟩
  specialTokens := .empty
  vocab := _
  rebuilt := rfl

theorem text_never_retracted_halves :
    (∀ tokenId ∈ [256, 0xA9, 0xC3], (halves.vocab tokenId).isSome) ∧
      ((transcript (.tokenStream "r") halves [256, 0xA9, 0xC3]).stage = .reading ∧
        ∃ part text, FinalPart halves [256, 0xA9, 0xC3] part text ∧
          (transcript (.tokenStream "r") halves [256, 0xA9, 0xC3]).sent.flatMap ServerSentEvent.textOf = text ∧
          ∀ more whole, halves.decode ([256, 0xA9, 0xC3] ++ more) = some whole → text <+: whole) ∧
      (transcript (.tokenStream "r") halves [256]).sent = [.start "r"] ∧
      (transcript (.generate 2) halves [256, 0xA9, 0xC3]).sent =
        [.token { text := ['a', 'é'], tokenId := 0xA9, index := 2 }] := by
  have known : ∀ tokenId ∈ [256, 0xA9, 0xC3], (halves.vocab tokenId).isSome := by decide
  exact ⟨known, text_never_retracted (.tokenStream "r") halves _ known, by decide, by decide⟩

theorem generate_sends_transcript_halves :
    let last := (fun rpc : Rpc => rpc.loop halves 2 false)^[3] { queue := [256, 0xA9], finishReason := some .eos }
    (∀ tokenId ∈ [256, 0xA9], (halves.vocab tokenId).isSome) ∧ last.stage = .leaving ∧
      last.yielded = [.token { text := ['a', 'é'], tokenId := 0xA9, index := 2 },
        .finish { reason := .eos, outputTokens := 4 }] := by
  have known : ∀ tokenId ∈ [256, 0xA9], (halves.vocab tokenId).isSome := by decide
  obtain ⟨stage, yielded⟩ := generate_sends_transcript halves 2 [256, 0xA9] .eos known
  exact ⟨known, stage, yielded.trans (by decide)⟩

end Nanoserve.Verified
