import Nanoserve.Model.Data
import Nanoserve.Verified.Vocabulary

/-! # Reading in chunks

`stream_documents` splits what it has read so far and keeps the last part for the next round.
-/

namespace Nanoserve.Verified

open Lib Model List

variable {cls : CharClasses} {chunkBytes : Nat} {maxBytes : Option Int}

theorem nonblank_append (first second : List Text) :
    nonblank cls (first ++ second) = nonblank cls first ++ nonblank cls second := by
  rw [nonblank, map_append, filter_append]
  rfl

/-- The part of a text that is to be read. -/
def wanted (maxBytes : Option Int) (text : Text) : Text :=
  match maxBytes with
  | none => text
  | some most => text.take most.toNat

def unread (maxBytes : Option Int) (state : Reading) : Text :=
  wanted (maxBytes.map (· - state.read)) state.rest

structure Reads (classes : CharClasses) (maxBytes : Option Int) (text : Text) (state : Reading) : Prop where
  whole : state.yielded ++ nonblank classes (splitAt END_OF_TEXT.toList (state.tail ++ unread maxBytes state)) =
    nonblank classes (splitAt END_OF_TEXT.toList (wanted maxBytes text))
  alone : splitAt END_OF_TEXT.toList state.tail = [state.tail]
  finished : state.reading = false → unread maxBytes state = []

theorem unread_eq {state : Reading} {count : Nat} (countEq : (state.want chunkBytes maxBytes).toNat = count) :
    unread maxBytes state = state.rest.take count ++
      wanted (maxBytes.map (· - (state.read + (state.rest.take count).length))) (state.rest.drop count) := by
  cases maxBytes with
  | none => exact (take_append_drop count state.rest).symm
  | some most =>
    change (min (chunkBytes : Int) (most - state.read)).toNat = count at countEq
    show state.rest.take (most - state.read).toNat =
      _ ++ (state.rest.drop count).take (most - (state.read + (state.rest.take count).length)).toNat
    rw [length_take]
    rcases Nat.le_total count state.rest.length with inside | beyond
    · rw [Nat.min_eq_left inside, ← take_add]
      congr 1
      omega
    · rw [take_of_length_le (by omega), take_of_length_le beyond, drop_eq_nil_of_le beyond, take_nil,
        append_nil]

theorem unread_eq_nil (pos : 0 < chunkBytes) {state : Reading}
    (stops : (maxBytes.isSome ∧ state.want chunkBytes maxBytes ≤ 0) ∨
      state.rest.take (state.want chunkBytes maxBytes).toNat = []) : unread maxBytes state = [] := by
  cases maxBytes with
  | none =>
    have empty := stops.resolve_left fun limited => by cases limited.1
    have asked : (state.want chunkBytes none).toNat ≠ 0 := by
      simp only [Reading.want]
      omega
    exact (take_eq_nil_iff.mp empty).resolve_left asked
  | some most =>
    show state.rest.take (most - state.read).toNat = []
    rw [take_eq_nil_iff] at stops ⊢
    simp only [Reading.want, Option.isSome_some, true_and] at stops
    rcases stops with limited | zero | empty
    · omega
    · omega
    · exact .inr empty

section Round

variable {text : Text} {state : Reading}

theorem Reads.break (reads : Reads cls maxBytes text state) (empty : unread maxBytes state = []) :
    Reads cls maxBytes text { state with reading := false } :=
  ⟨reads.whole, reads.alone, fun _ => empty⟩

theorem Reads.round (pos : 0 < chunkBytes) (reads : Reads cls maxBytes text state) (busy : state.reading = true) :
    ∃ next, state.round cls chunkBytes maxBytes = .ok next ∧ Reads cls maxBytes text next ∧
      next.rest.length + next.reading.toNat < state.rest.length + state.reading.toNat := by
  simp only [Reading.round]
  split
  case isTrue nothing =>
    exact ⟨_, rfl, reads.break (unread_eq_nil pos (.inl nothing)), by simp [busy]⟩
  case isFalse =>
    split
    case isTrue nothing =>
      exact ⟨_, rfl, reads.break (unread_eq_nil pos (.inr nothing)), by simp [busy]⟩
    case isFalse some =>
      generalize countEq : (state.want chunkBytes maxBytes).toNat = count at some ⊢
      have shorter : (state.rest.drop count).length < state.rest.length := by
        rw [take_eq_nil_iff, not_or] at some
        have length := length_pos_iff.mpr some.2
        rw [length_drop]
        omega
      obtain ⟨_, _, split, appended⟩ := splitAt_append END_OF_TEXT.toList (state.tail ++ state.rest.take count)
        (wanted (maxBytes.map (· - (state.read + (state.rest.take count).length))) (state.rest.drop count))
      refine ⟨_, rfl, ⟨?_, ?_, fun done => by cases done⟩, by simpa [busy] using shorter⟩
      · rw [split, dropLast_concat, getLastD_concat, ← reads.whole, unread_eq countEq, ← append_assoc state.tail,
          appended, nonblank_append, append_assoc]
        rfl
      · rw [split, getLastD_concat]
        exact splitAt_last split

end Round

theorem streamDocuments_eq (cls : CharClasses) (maxBytes : Option Int) (text : Text) (pos : 0 < chunkBytes) :
    ∃ rounds, streamDocuments cls chunkBytes maxBytes text rounds =
      some (nonblank cls (splitAt END_OF_TEXT.toList (wanted maxBytes text))) := by
  have initially : Reads cls maxBytes text { rest := text } := by
    refine ⟨?_, rfl, fun done => by cases done⟩
    have all : unread maxBytes { rest := text } = wanted maxBytes text := by
      cases maxBytes with
      | none => rfl
      | some => simp [unread, wanted]
    rw [all]
    rfl
  obtain ⟨rounds, _, ran, reads, done⟩ := loop_halts (fun state : Reading => state.rest.length + state.reading.toNat)
    (fun state held busy => held.round pos busy) initially
  refine ⟨rounds, ?_⟩
  have whole := reads.whole
  rw [reads.finished done, append_nil, reads.alone] at whole
  rw [streamDocuments, ran]
  exact congrArg some whole

/-- For every text and every chunk size, the documents are the parts of the text between the
separators, stripped, without the empty ones. -/
theorem chunks_do_not_matter (classes : CharClasses) (chunkBytes : Nat) (text : Text) (positive : 1 ≤ chunkBytes) :
    (∃ rounds, streamDocuments classes chunkBytes none text rounds =
        some (nonblank classes (splitAt END_OF_TEXT.toList text))) ∧
      ∀ maxBytes : Int, ∃ rounds, streamDocuments classes chunkBytes (some maxBytes) text rounds =
        some (nonblank classes (splitAt END_OF_TEXT.toList (text.take maxBytes.toNat))) :=
  ⟨streamDocuments_eq classes none text positive, fun maxBytes => streamDocuments_eq classes (some maxBytes) text positive⟩

/-- Chunks of five characters, shorter than the separator. -/
theorem chunks_do_not_matter_short :
    1 ≤ 5 ∧
      ((∃ rounds, streamDocuments asciiClasses 5 none "one <|endoftext|> two<|endoftext|>\n<|end".toList rounds =
          some (nonblank asciiClasses (splitAt END_OF_TEXT.toList "one <|endoftext|> two<|endoftext|>\n<|end".toList))) ∧
        ∀ maxBytes : Int, ∃ rounds,
          streamDocuments asciiClasses 5 (some maxBytes) "one <|endoftext|> two<|endoftext|>\n<|end".toList rounds =
            some (nonblank asciiClasses (splitAt END_OF_TEXT.toList
              ("one <|endoftext|> two<|endoftext|>\n<|end".toList.take maxBytes.toNat)))) ∧
      streamDocuments asciiClasses 5 none "one <|endoftext|> two<|endoftext|>\n<|end".toList 10 =
        some ["one".toList, "two".toList, "<|end".toList] ∧
      streamDocuments asciiClasses 5 (some 20) "one <|endoftext|> two<|endoftext|>\n<|end".toList 10 =
        some ["one".toList, "tw".toList] := by
  exact ⟨by decide, chunks_do_not_matter asciiClasses 5 _ (by decide), by decide +kernel, by decide +kernel⟩

end Nanoserve.Verified
