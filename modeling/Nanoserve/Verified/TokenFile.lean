import Nanoserve.Verified.Boundaries
import Nanoserve.Verified.Documents

/-! # The token file

However often the buffer is flushed, the file and the buffer together are the ids of the documents
kept so far, each with end-of-text behind it.
-/

namespace Nanoserve.Verified

open Lib Model List
open BPETokenizer (train)

variable {tok : BPETokenizer} {eos : Nat}

/-! ## Writing -/

/-- All streamed documents minus the first and the last, as asked. -/
def keptDocuments (dropFirstDocument dropLastDocument : Bool) (docs : List Text) : List Text :=
  let docs := if dropFirstDocument then docs.drop 1 else docs
  if dropLastDocument then docs.dropLast else docs

def packed (tok : BPETokenizer) (eos : Nat) (docs : List Text) : List Nat :=
  docs.flatMap fun doc => tok.encode doc false ++ [eos]

structure Narrow (tok : BPETokenizer) (eos : Nat) : Prop where
  ids : ∀ doc, ∀ id ∈ tok.encode doc false, id < 2 ^ 16
  eos : eos < 2 ^ 16

theorem asUint16_ok {buf : List Nat} (narrow : ∀ id ∈ buf, id < 2 ^ 16) :
    ∃ tokens, asUint16 buf = .ok tokens ∧ tokens.map UInt16.toNat = buf := by
  refine ⟨buf.map UInt16.ofNat, if_pos narrow, ?_⟩
  rw [map_map]
  calc buf.map (UInt16.toNat ∘ UInt16.ofNat)
    _ = buf.map id := map_congr_left fun id mem => UInt16.toNat_ofNat_of_lt (narrow id mem)
    _ = buf := map_id buf

structure Recorded (tok : BPETokenizer) (eos : Nat) (docs : List Text) (writing : Writing) : Prop where
  ids : writing.file.map UInt16.toNat ++ writing.buf = packed tok eos docs
  tokens : writing.nTokens = (packed tok eos docs).length
  documents : writing.nDocs = docs.length

theorem packed_append_singleton (docs : List Text) (doc : Text) :
    packed tok eos (docs ++ [doc]) = packed tok eos docs ++ (tok.encode doc false ++ [eos]) := by
  simp [packed]

theorem lt_of_mem_packed (narrow : Narrow tok eos) {docs : List Text} {id : Nat} (mem : id ∈ packed tok eos docs) :
    id < 2 ^ 16 := by
  obtain ⟨doc, -, inDoc⟩ := mem_flatMap.mp mem
  cases mem_append.mp inDoc with
  | inl inside => exact narrow.ids doc id inside
  | inr last => exact mem_singleton.mp last ▸ narrow.eos

namespace Recorded

variable {docs : List Text} {writing : Writing}

theorem flush (narrow : Narrow tok eos) (recorded : Recorded tok eos docs writing) :
    ∃ next, writing.flush = .ok next ∧ Recorded tok eos docs next ∧ next.buf = [] ∧ next.pending = writing.pending := by
  have fits : ∀ id ∈ writing.buf, id < 2 ^ 16 := by
    intro id mem
    refine @lt_of_mem_packed tok eos narrow docs id ?_
    rw [← recorded.ids]
    exact mem_append_right _ mem
  obtain ⟨tokens, cast, same⟩ := asUint16_ok fits
  refine ⟨{ writing with file := writing.file ++ tokens, buf := [] }, by simp only [Writing.flush, cast],
    ⟨?_, recorded.tokens, recorded.documents⟩, rfl, rfl⟩
  rw [map_append, append_nil, same]
  exact recorded.ids

theorem keep (narrow : Narrow tok eos) (recorded : Recorded tok eos docs writing) (flushTokens : Int) (doc : Text) :
    ∃ next, writing.keep tok eos flushTokens doc = .ok next ∧ Recorded tok eos (docs ++ [doc]) next ∧
      next.pending = writing.pending := by
  have extended : Recorded tok eos (docs ++ [doc])
      { writing with
        buf := writing.buf ++ (tok.encode doc false ++ [eos])
        nTokens := writing.nTokens + (tok.encode doc false ++ [eos]).length
        nDocs := writing.nDocs + 1 } := by
    refine ⟨?_, ?_, ?_⟩
    · rw [← append_assoc, recorded.ids, packed_append_singleton]
    · rw [recorded.tokens, packed_append_singleton, @length_append _ (packed tok eos docs)]
    · show writing.nDocs + 1 = _
      rw [recorded.documents, length_append, length_singleton]
  simp only [Writing.keep]
  split
  case isTrue =>
    obtain ⟨next, flushed, recordedNext, -, pending⟩ := extended.flush narrow
    exact ⟨next, flushed, recordedNext, pending⟩
  case isFalse => exact ⟨_, rfl, extended, rfl⟩

end Recorded

def seen (dropLastDocument : Bool) (docs : List Text) : List Text := if dropLastDocument then docs.dropLast else docs

theorem Recorded.round (narrow : Narrow tok eos) {dropLastDocument : Bool} {past : List Text} {writing : Writing}
    (recorded : Recorded tok eos (seen dropLastDocument past) writing)
    (pending : dropLastDocument = true → writing.pending = past.getLast?) (flushTokens : Int) (doc : Text) :
    ∃ next, writing.round tok eos flushTokens dropLastDocument doc = .ok next ∧
      Recorded tok eos (seen dropLastDocument (past ++ [doc])) next ∧
      (dropLastDocument = true → next.pending = (past ++ [doc]).getLast?) := by
  cases dropLastDocument with
  | false =>
    obtain ⟨next, kept, recordedNext, -⟩ := recorded.keep narrow flushTokens doc
    exact ⟨next, kept, recordedNext, fun dropping => by cases dropping⟩
  | true =>
    simp only [Writing.round, if_true, pending rfl]
    cases last : past.getLast? with
    | none =>
      obtain rfl := getLast?_eq_none_iff.mp last
      exact ⟨_, rfl, ⟨recorded.ids, recorded.tokens, recorded.documents⟩, fun _ => rfl⟩
    | some previous =>
      obtain ⟨before, rfl⟩ := getLast?_eq_some_iff.mp last
      have waiting : Recorded tok eos before { writing with pending := some doc } := by
        rw [seen, if_pos rfl, dropLast_concat] at recorded
        exact ⟨recorded.ids, recorded.tokens, recorded.documents⟩
      obtain ⟨next, kept, recordedNext, pendingNext⟩ := waiting.keep narrow flushTokens previous
      refine ⟨next, kept, ?_, fun _ => ?_⟩
      · rw [seen, if_pos rfl, dropLast_concat]
        exact recordedNext
      · rw [pendingNext, getLast?_concat]

theorem writing_loop (narrow : Narrow tok eos) (flushTokens : Int) (dropLastDocument : Bool) (docs : List Text) :
    ∃ writing, run (Writing.round tok eos flushTokens dropLastDocument) {} docs = .ok writing ∧
      Recorded tok eos (seen dropLastDocument docs) writing := by
  have initially : Recorded tok eos (seen dropLastDocument []) {} := by
    cases dropLastDocument <;> exact ⟨rfl, rfl, rfl⟩
  obtain ⟨writing, ran, recorded, -⟩ := @run_total_history _ _ _ (Writing.round tok eos flushTokens dropLastDocument)
    (fun past writing => Recorded tok eos (seen dropLastDocument past) writing ∧
      (dropLastDocument = true → writing.pending = past.getLast?)) (fun _ _ => True) {}
    (fun past writing doc _ held _ => held.1.round narrow held.2 flushTokens doc) docs ⟨initially, fun _ => rfl⟩
    (along_trivial (fun _ _ => trivial) docs _)
  exact ⟨writing, ran, recorded⟩

theorem prepare_writes (narrow : Narrow tok eos) (listed : tok.eosId = some eos) (small : tok.vocabSize ≤ MAX_VOCAB_FOR_UINT16)
    (flushTokens : Int) (dropFirstDocument dropLastDocument : Bool) (docs : List Text) :
    ∃ file manifest, prepare tok flushTokens dropFirstDocument dropLastDocument docs = .ok (file, manifest) ∧
      file.map UInt16.toNat = packed tok eos (keptDocuments dropFirstDocument dropLastDocument docs) ∧
      manifest.tokens = file.length ∧
      manifest.documents = (keptDocuments dropFirstDocument dropLastDocument docs).length := by
  obtain ⟨writing, ran, recorded⟩ := writing_loop narrow flushTokens dropLastDocument
    (if dropFirstDocument then docs.drop 1 else docs)
  have ended : ∃ written, (if writing.buf = [] then .ok writing else writing.flush) = .ok written ∧
      Recorded tok eos (seen dropLastDocument (if dropFirstDocument then docs.drop 1 else docs)) written ∧
      written.buf = [] := by
    split
    case isTrue empty => exact ⟨writing, rfl, recorded, empty⟩
    case isFalse =>
      obtain ⟨written, flushed, recordedNext, empty, -⟩ := recorded.flush narrow
      exact ⟨written, flushed, recordedNext, empty⟩
  obtain ⟨written, endedEq, recordedWritten, empty⟩ := ended
  have ids := recordedWritten.ids
  rw [empty, append_nil] at ids
  refine ⟨written.file, _, by simp only [prepare, if_neg (Nat.not_lt.mpr small), listed, ran, endedEq]; rfl, ids, ?_,
    recordedWritten.documents⟩
  show written.nTokens = written.file.length
  rw [recordedWritten.tokens, ← ids, length_map]

theorem splitAt_packed (absent : ∀ doc, eos ∉ tok.encode doc false) (docs : List Text) :
    splitAt [eos] (packed tok eos docs) = docs.map (fun doc => tok.encode doc false) ++ [[]] := by
  have parts : packed tok eos docs = (docs.map fun doc => tok.encode doc false).flatMap fun ids => ids ++ [eos] := by
    rw [flatMap_map]
    rfl
  rw [parts, splitAt_marked]
  intro ids mem
  obtain ⟨doc, -, rfl⟩ := mem_map.mp mem
  exact absent doc

theorem count_packed (absent : ∀ doc, eos ∉ tok.encode doc false) (docs : List Text) :
    (packed tok eos docs).count eos = docs.length := by
  induction docs with
  | nil => rfl
  | cons doc docs ih =>
    rw [packed, flatMap_cons, count_append, count_append, count_eq_zero_of_not_mem (absent doc),
      count_singleton_self, length_cons, ← ih]
    show 0 + 1 + (packed tok eos docs).count eos = _
    omega

/-! ## Trained tokenizers -/

section Train

variable {cls : CharClasses} {corpus : List Text} {vocabSize : Int} {specials : List String}
  {least : Int}

/-- A vocabulary that was asked for with at most so many ids, or that has no more of them and
numbers them without gaps. -/
def FitsUint16 (vocabSize : Int) (specialTokens : List String) (tok : BPETokenizer) : Prop :=
  vocabSize ≤ MAX_VOCAB_FOR_UINT16 ∨ (specialTokens.Nodup ∧ tok.vocabSize ≤ MAX_VOCAB_FOR_UINT16)

section

variable (trained : train cls corpus vocabSize specials least = .ok tok)
include trained

theorem FitsUint16.ids (fits : FitsUint16 vocabSize specials tok) {id : Nat}
    (mem : id ∈ vocabIds tok.merges tok.specialTokens) : id < MAX_VOCAB_FOR_UINT16 := by
  cases fits with
  | inl =>
    have small := train_ids_lt trained mem
    omega
  | inr dense =>
    rw [train_vocabIds dense.1 trained, ← train_vocabSize dense.1 trained, mem_range] at mem
    exact Nat.lt_of_lt_of_le mem dense.2

theorem FitsUint16.size (fits : FitsUint16 vocabSize specials tok) :
    tok.vocabSize ≤ MAX_VOCAB_FOR_UINT16 := by
  have among : (vocabIds tok.merges tok.specialTokens).dedup ⊆ range MAX_VOCAB_FOR_UINT16 := by
    intro id mem
    exact mem_range.mpr (fits.ids trained (mem_dedup.mp mem))
  have most := ((nodup_dedup _).subperm among).length_le
  rwa [length_range] at most

theorem mem_vocabIds_of_mem_encode {doc : Text} {id : Nat}
    (mem : id ∈ tok.encode doc false) :
    id ∈ vocabIds tok.merges tok.specialTokens ∧ id ∉ tok.specialTokens.values := by
  have ordinary : id ∈ tok.encodeOrdinary doc := by simpa [BPETokenizer.encode] using mem
  refine ⟨?_, not_special_of_mem_encodeOrdinary (train_ranked trained) (train_above trained) ordinary⟩
  obtain ⟨_, -, inPiece⟩ := mem_flatMap.mp ordinary
  have below := lt_of_mem_encodePiece (train_ranked trained) inPiece
  rw [vocabIds, mem_append, mem_append]
  left
  rcases Nat.lt_or_ge id 256 with byte | merged
  · exact .inl (mem_range.mpr byte)
  · rw [Dict.values, (train_ranked trained).ids, mem_range'_1]
    exact .inr ⟨merged, below⟩

end

end Train

/-- For every corpus, every trained tokenizer that knows end-of-text and fits, and every flush
threshold: the file holds the ids of the kept documents, each with end-of-text behind it, so it has
as many of these as the manifest has documents, as many ids as the manifest has tokens, and taking
it apart at end-of-text gives the documents' ids. -/
theorem token_file_faithful (classes : CharClasses) (corpus : List Text) (vocabSize : Int) (specialTokens : List String)
    (minFrequency : Int) {tok : BPETokenizer}
    (trained : train classes corpus vocabSize specialTokens minFrequency = .ok tok)
    (known : END_OF_TEXT ∈ specialTokens) (fits : FitsUint16 vocabSize specialTokens tok) (chunkBytes : Nat)
    (positive : 1 ≤ chunkBytes) (text : Text) (flushTokens : Int) (dropFirstDocument dropLastDocument : Bool) :
    ∃ rounds docs eos file manifest, streamDocuments classes chunkBytes none text rounds = some docs ∧
      docs = nonblank classes (splitAt END_OF_TEXT.toList text) ∧ tok.eosId = some eos ∧
      prepare tok flushTokens dropFirstDocument dropLastDocument docs = .ok (file, manifest) ∧
      file.map UInt16.toNat = (keptDocuments dropFirstDocument dropLastDocument docs).flatMap
        (fun doc => tok.encode doc false ++ [eos]) ∧
      (file.map UInt16.toNat).count eos = manifest.documents ∧
      splitAt [eos] (file.map UInt16.toNat) =
        (keptDocuments dropFirstDocument dropLastDocument docs).map (fun doc => tok.encode doc false) ++ [[]] ∧
      manifest.tokens = file.length := by
  have listed : END_OF_TEXT ∈ tok.specialTokens.keys := by
    rw [(train_inv trained).2.2.2]
    exact mem_keys_specialIds known
  obtain ⟨eos, eosEq⟩ := Dict.mem_keys.mp listed
  have special : eos ∈ tok.specialTokens.values := List.mem_map_of_mem (Dict.get?_eq_some.mp eosEq)
  have narrow : Narrow tok eos := by
    refine ⟨fun doc id member => fits.ids trained (mem_vocabIds_of_mem_encode trained member).1, fits.ids trained ?_⟩
    exact List.mem_append_right _ special
  have absent : ∀ doc, eos ∉ tok.encode doc false := fun doc inside =>
    (mem_vocabIds_of_mem_encode trained inside).2 special
  obtain ⟨rounds, streamed⟩ := streamDocuments_eq classes none text positive
  obtain ⟨file, manifest, prepared, ids, tokens, documents⟩ := prepare_writes narrow eosEq (fits.size trained) flushTokens
    dropFirstDocument dropLastDocument (nonblank classes (splitAt END_OF_TEXT.toList text))
  refine ⟨rounds, nonblank classes (splitAt END_OF_TEXT.toList text), eos, file, manifest, streamed, rfl, eosEq, prepared,
    ids, ?_, ?_, tokens⟩
  · rw [ids, count_packed absent, documents]
  · rw [ids, splitAt_packed absent]

/-- A flush after every document, and the last one dropped. -/
theorem token_file_faithful_pair :
    (∃ tok, train asciiClasses [] 257 [END_OF_TEXT] 2 = .ok tok ∧ END_OF_TEXT ∈ [END_OF_TEXT] ∧
      FitsUint16 257 [END_OF_TEXT] tok ∧
      ∃ rounds docs eos file manifest,
        streamDocuments asciiClasses 4 none "a<|endoftext|> bc <|endoftext|>d".toList rounds = some docs ∧
        tok.eosId = some eos ∧ prepare tok 1 false true docs = .ok (file, manifest) ∧
        (file.map UInt16.toNat).count eos = manifest.documents) ∧
      nonblank asciiClasses (splitAt END_OF_TEXT.toList "a<|endoftext|> bc <|endoftext|>d".toList) =
        ["a".toList, "bc".toList, "d".toList] ∧
      Yields (train asciiClasses [] 257 [END_OF_TEXT] 2) fun tok =>
        Yields (run (Writing.round tok 256 1 true) {} ["a".toList, "bc".toList, "d".toList]) fun writing =>
          writing.file = [97, 256, 98, 99, 256] ∧ writing.nDocs = 2 := by
  refine ⟨?_, by decide +kernel, by decide +kernel⟩
  obtain ⟨tok, trained, -⟩ := train_spec asciiClasses [] 2
    (show 256 + (([END_OF_TEXT].length : Nat) : Int) ≤ 257 by decide)
  have fits : FitsUint16 257 [END_OF_TEXT] tok := .inl (by decide)
  obtain ⟨rounds, docs, eos, file, manifest, streamed, -, listed, prepared, -, count, -⟩ :=
    token_file_faithful _ _ _ _ _ trained (by decide) fits 4 (by decide) "a<|endoftext|> bc <|endoftext|>d".toList 1
      false true
  exact ⟨tok, trained, by decide, fits, rounds, docs, eos, file, manifest, streamed, listed, prepared, count⟩

end Nanoserve.Verified
