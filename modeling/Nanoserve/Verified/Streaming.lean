import Nanoserve.Engine.Replica
import Nanoserve.Verified.Vocabulary

/-! # What a call has said

A call of `Generate` reads the engine's tokens one by one and now and then sends a piece of text.
-/

namespace Nanoserve.Verified

open Engine Lib Model List

variable {tok : BPETokenizer}
variable {cursor next : Cursor} {ids : List Nat}

/-! ## Reading tokens -/

theorem accept_cases {tokenId : Nat} {piece : Option Text} (accepted : cursor.accept tok tokenId = some (next, piece)) :
    ∃ text, tok.decode (cursor.produced ++ [tokenId]) = some text ∧
      ((¬Utf8.Ragged text ∧ cursor.emittedChars < text.length ∧ piece = some (text.drop cursor.emittedChars) ∧
          next = ⟨cursor.produced ++ [tokenId], text.length,
            cursor.emitted ++ [(tokenId, text.drop cursor.emittedChars)]⟩) ∨
        ((Utf8.Ragged text ∨ text.length ≤ cursor.emittedChars) ∧ piece = none ∧
          next = { cursor with produced := cursor.produced ++ [tokenId] })) := by
  simp only [Cursor.accept] at accepted
  split at accepted
  case h_1 => cases accepted
  case h_2 text decoded =>
    refine ⟨text, decoded, ?_⟩
    split at accepted
    case isTrue ragged =>
      simp only [Option.some.injEq, Prod.mk.injEq] at accepted
      exact .inr ⟨.inl ragged, accepted.2.symm, accepted.1.symm⟩
    case isFalse final =>
      split at accepted
      case isTrue longer =>
        simp only [Option.some.injEq, Prod.mk.injEq] at accepted
        exact .inl ⟨final, longer, accepted.2.symm, accepted.1.symm⟩
      case isFalse short =>
        simp only [Option.some.injEq, Prod.mk.injEq] at accepted
        exact .inr ⟨.inr (Nat.le_of_not_lt short), accepted.2.symm, accepted.1.symm⟩

def readTokens (tok : BPETokenizer) : Cursor → List Nat → Option Cursor
  | cursor, [] => some cursor
  | cursor, tokenId :: ids =>
    match cursor.accept tok tokenId with
    | none => none
    | some (next, _) => readTokens tok next ids

theorem readTokens_append (cursor : Cursor) (first second : List Nat) :
    readTokens tok cursor (first ++ second) = (readTokens tok cursor first).bind fun next => readTokens tok next second := by
  induction first generalizing cursor with
  | nil => rfl
  | cons tokenId _ ih =>
    rw [cons_append, readTokens, readTokens]
    cases cursor.accept tok tokenId with
    | none => rfl
    | some accepted => exact ih accepted.1

theorem readTokens_snoc {middle : Cursor} {tokenId : Nat} {piece : Option Text}
    (before : readTokens tok cursor ids = some middle) (accepted : middle.accept tok tokenId = some (next, piece)) :
    readTokens tok cursor (ids ++ [tokenId]) = some next := by
  rw [readTokens_append, before, Option.bind_some, readTokens, accepted]
  rfl

def spoken (entries : List (Nat × Text)) : Text := (entries.map Prod.snd).flatten

theorem spoken_snoc (entries : List (Nat × Text)) (tokenId : Nat) (piece : Text) :
    spoken (entries ++ [(tokenId, piece)]) = spoken entries ++ piece := by
  simp [spoken]

structure Voiced (tok : BPETokenizer) (cursor : Cursor) : Prop where
  chars : cursor.emittedChars = (spoken cursor.emitted).length
  final : ∀ count ≤ cursor.emitted.length, ∃ ids text, ids <+: cursor.produced ∧ tok.decode ids = some text ∧
    ¬Utf8.Ragged text ∧ spoken (cursor.emitted.take count) = text
  length : cursor.emitted.length ≤ cursor.produced.length

theorem Voiced.empty : Voiced tok {} where
  chars := rfl
  final count _ := ⟨[], [], prefix_rfl, decode_nil, Utf8.not_ragged_nil, by simp [spoken]⟩
  length := Nat.le_refl _

theorem Voiced.accept {cursor next : Cursor} (voiced : Voiced tok cursor) {tokenId : Nat} {piece : Option Text}
    (accepted : cursor.accept tok tokenId = some (next, piece)) : Voiced tok next := by
  have longer : cursor.produced <+: cursor.produced ++ [tokenId] := prefix_append _ _
  obtain ⟨text, decoded, ⟨final, -, -, rfl⟩ | ⟨-, -, rfl⟩⟩ := accept_cases accepted
  · -- All pieces so far are final, so the new one is what the text has beyond them.
    obtain ⟨ids, before, inside, decodedBefore, finalBefore, spokenBefore⟩ :=
      voiced.final cursor.emitted.length (Nat.le_refl _)
    rw [take_length] at spokenBefore
    obtain ⟨rest, restEq⟩ := inside.trans longer
    rw [← restEq] at decoded
    obtain ⟨more, -, textEq⟩ := decode_append decodedBefore finalBefore decoded
    have charsEq : cursor.emittedChars = before.length := by rw [voiced.chars, spokenBefore]
    have spokenAll : spoken (cursor.emitted ++ [(tokenId, text.drop cursor.emittedChars)]) = text := by
      rw [spoken_snoc, spokenBefore, textEq, charsEq, drop_left]
    refine ⟨by rw [spokenAll], fun count most => ?_, by simpa using voiced.length⟩
    rcases Nat.lt_or_ge cursor.emitted.length count with all | some
    · rw [restEq] at decoded
      refine ⟨_, text, prefix_rfl, decoded, final, ?_⟩
      rw [take_of_length_le (by simpa using Nat.succ_le_of_lt all), spokenAll]
    · obtain ⟨ids, before, inside, facts⟩ := voiced.final count some
      rw [take_append_of_le_length some]
      exact ⟨ids, before, inside.trans longer, facts⟩
  · refine ⟨voiced.chars, fun count most => ?_, by simpa using Nat.le_succ_of_le voiced.length⟩
    obtain ⟨ids, before, inside, facts⟩ := voiced.final count most
    exact ⟨ids, before, inside.trans longer, facts⟩

theorem Voiced.read (voiced : Voiced tok cursor) (run : readTokens tok cursor ids = some next) : Voiced tok next := by
  induction ids generalizing cursor with
  | nil =>
    cases run
    exact voiced
  | cons _ _ ih =>
    rw [readTokens] at run
    split at run
    case h_1 => cases run
    case h_2 middle piece accepted => exact ih (voiced.accept accepted) run

theorem emitted_grows (run : readTokens tok cursor ids = some next) : cursor.emitted <+: next.emitted := by
  induction ids generalizing cursor with
  | nil =>
    cases run
    exact prefix_rfl
  | cons _ _ ih =>
    rw [readTokens] at run
    split at run
    case h_1 => cases run
    case h_2 middle piece accepted =>
      refine IsPrefix.trans ?_ (ih run)
      obtain ⟨text, -, ⟨-, -, -, rfl⟩ | ⟨-, -, rfl⟩⟩ := accept_cases accepted
      · exact prefix_append _ _
      · exact prefix_rfl

/-- Each of the first `count` tokens ends a character. -/
def Whole (tok : BPETokenizer) (ids : List Nat) (count : Nat) : Prop :=
  ∀ index < count, ∃ before after, tok.decode (ids.take index) = some before ∧
    tok.decode (ids.take (index + 1)) = some after ∧ ¬Utf8.Ragged after ∧ before.length < after.length

theorem readTokens_whole {count : Nat} (whole : Whole tok ids count) (enough : count ≤ ids.length) :
    ∃ cursor, readTokens tok {} (ids.take count) = some cursor ∧ cursor.produced = ids.take count ∧
      cursor.emitted.map Prod.fst = ids.take count ∧ tok.decode (ids.take count) = some (spoken cursor.emitted) ∧
      ¬Utf8.Ragged (spoken cursor.emitted) := by
  induction count with
  | zero => exact ⟨{}, rfl, rfl, rfl, decode_nil, Utf8.not_ragged_nil⟩
  | succ count ih =>
    obtain ⟨cursor, run, produced, sent, decoded, finalBefore⟩ :=
      ih (fun index below => whole index (Nat.lt_succ_of_lt below)) (Nat.le_of_succ_le enough)
    obtain ⟨before, after, decodedBefore, decodedAfter, final, longer⟩ := whole count (Nat.lt_succ_self _)
    obtain rfl : spoken cursor.emitted = before := Option.some.inj (decoded.symm.trans decodedBefore)
    have chars := (Voiced.empty.read run).chars
    have split : ids.take (count + 1) = ids.take count ++ [ids[count]] := take_succ_eq_append_getElem enough
    rw [split] at decodedAfter
    have accepted : cursor.accept tok ids[count] = some (⟨cursor.produced ++ [ids[count]], after.length,
        cursor.emitted ++ [(ids[count], after.drop cursor.emittedChars)]⟩, some (after.drop cursor.emittedChars)) := by
      rw [← produced] at decodedAfter
      simp only [Cursor.accept, decodedAfter, final, if_false, chars, longer, if_true]
    -- The text so far is final, so the new piece continues it.
    obtain ⟨more, -, afterEq⟩ := decode_append decoded finalBefore decodedAfter
    have spokenAll : spoken (cursor.emitted ++ [(ids[count], after.drop cursor.emittedChars)]) = after := by
      rw [spoken_snoc, chars, afterEq, drop_left]
    rw [split]
    refine ⟨_, readTokens_snoc run accepted, ?_, ?_, ?_, ?_⟩
    · rw [produced]
    · rw [map_append, sent]
      rfl
    · rw [spokenAll]
      exact decodedAfter
    · rw [spokenAll]
      exact final

/-- The tokens read up to and including the one that sent the last of `count` pieces. -/
def cut (tok : BPETokenizer) (count : Nat) : Cursor → List Nat → List Nat
  | cursor, ids =>
    if count ≤ cursor.emitted.length then []
    else
      match ids with
      | [] => []
      | tokenId :: ids =>
        match cursor.accept tok tokenId with
        | none => []
        | some (next, _) => tokenId :: cut tok count next ids

theorem cut_whole {count : Nat} (whole : Whole tok ids count) (enough : count ≤ ids.length) :
    cut tok count {} ids = ids.take count := by
  -- From any token on, with as many pieces sent as tokens read.
  have fromHere : ∀ left index (cursor : Cursor), index + left = count →
      readTokens tok {} (ids.take index) = some cursor → cursor.emitted.length = index →
      cut tok count cursor (ids.drop index) = (ids.drop index).take left := by
    intro left
    induction left with
    | zero =>
      intro index cursor all _ sent
      unfold cut
      rw [if_pos (by omega), take_zero]
    | succ _ ih =>
      intro index cursor all run sent
      have here : index < ids.length := by omega
      obtain ⟨next, runNext, -, sentNext, -⟩ :=
        readTokens_whole (fun other below => whole other (Nat.lt_of_lt_of_le below (by omega))) (Nat.succ_le_of_lt here)
      have split := take_succ_eq_append_getElem here
      have lengthNext : next.emitted.length = index + 1 := by
        have lengths := congrArg List.length sentNext
        rw [length_map, length_take] at lengths
        omega
      have runSplit := runNext
      rw [split, readTokens_append, run, Option.bind_some, readTokens] at runSplit
      have rest := drop_eq_getElem_cons here
      unfold cut
      rw [if_neg (by omega), rest]
      dsimp only
      split at runSplit
      case h_1 => cases runSplit
      case h_2 middle piece accepted =>
        obtain rfl : middle = next := Option.some.inj runSplit
        exact congrArg _ (ih (index + 1) middle (by omega) runNext lengthNext)
  simpa using fromHere count 0 {} (by omega) rfl rfl

end Nanoserve.Verified
