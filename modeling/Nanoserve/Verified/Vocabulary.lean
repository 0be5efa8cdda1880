import Nanoserve.Model.Tokenizer

/-! # What token ids spell

A vocabulary spells its tokens (`Spells`) if a byte stands for itself, a merged token for its two
parts and a special token for its text.
-/

namespace Nanoserve.Verified

open Lib Model List Function

/-- The tables on ASCII. -/
def asciiClasses : CharClasses where
  word c := c.isAlphanum || c == '_'
  digit c := c.isDigit
  space c := c == ' ' || decide (9 ≤ c.toNat ∧ c.toNat ≤ 13) || decide (28 ≤ c.toNat ∧ c.toNat ≤ 31)

variable {tok : BPETokenizer}
variable {first second : List Nat} {pair : Nat × Nat}
variable {merges : List ((Nat × Nat) × Nat)} {specials : Dict String Nat}

theorem decode_eq_some {ids : List Nat} {text : Text} :
    tok.decode ids = some text ↔ ∃ bytes, tok.bytes ids = some bytes ∧ Utf8.decode bytes = text := by
  simp [BPETokenizer.decode]

theorem bytes_append (first second : List Nat) :
    tok.bytes (first ++ second) = (tok.bytes first).bind fun left => (tok.bytes second).map fun right => left ++ right := by
  simp only [BPETokenizer.bytes, mapM_append]
  cases first.mapM tok.vocab with
  | none => rfl
  | some =>
    cases second.mapM tok.vocab with
    | none => rfl
    | some => simp

theorem decode_append {before after : Text} (decoded : tok.decode first = some before) (final : ¬Utf8.Ragged before)
    (whole : tok.decode (first ++ second) = some after) :
    ∃ more, tok.decode second = some more ∧ after = before ++ more := by
  obtain ⟨left, leftBytes, rfl⟩ := decode_eq_some.mp decoded
  obtain ⟨bytes, allBytes, rfl⟩ := decode_eq_some.mp whole
  rw [bytes_append, leftBytes, Option.bind_some, Option.map_eq_some_iff] at allBytes
  obtain ⟨right, rightBytes, rfl⟩ := allBytes
  exact ⟨Utf8.decode right, decode_eq_some.mpr ⟨right, rightBytes, rfl⟩, Utf8.decode_append right final⟩

theorem decode_append_some {before more : Text} (decoded : tok.decode first = some before)
    (final : ¬Utf8.Ragged before) (rest : tok.decode second = some more) :
    tok.decode (first ++ second) = some (before ++ more) := by
  obtain ⟨left, leftBytes, rfl⟩ := decode_eq_some.mp decoded
  obtain ⟨right, rightBytes, rfl⟩ := decode_eq_some.mp rest
  refine decode_eq_some.mpr ⟨left ++ right, ?_, Utf8.decode_append right final⟩
  rw [bytes_append, leftBytes, rightBytes]
  rfl

theorem decode_of_append {text : Text} (decoded : tok.decode (first ++ second) = some text) :
    ∃ before, tok.decode first = some before := by
  obtain ⟨bytes, spelled, -⟩ := decode_eq_some.mp decoded
  rw [bytes_append, Option.bind_eq_some_iff] at spelled
  obtain ⟨left, leftBytes, -⟩ := spelled
  exact ⟨_, decode_eq_some.mpr ⟨left, leftBytes, rfl⟩⟩

theorem decode_nil : tok.decode [] = some [] := rfl

theorem bytes_cons (id : Nat) (ids : List Nat) :
    tok.bytes (id :: ids) = (tok.vocab id).bind fun left => (tok.bytes ids).map fun right => left ++ right := by
  have split := @bytes_append tok [id] ids
  rw [singleton_append] at split
  rw [split]
  cases found : tok.vocab id with
  | none => simp [BPETokenizer.bytes, found]
  | some => simp [BPETokenizer.bytes, found]

theorem bytes_flatMap {α : Type} {items : List α} {ids : α → List Nat} {spelling : α → List UInt8}
    (each : ∀ item ∈ items, tok.bytes (ids item) = some (spelling item)) :
    tok.bytes (items.flatMap ids) = some (items.flatMap spelling) := by
  induction items with
  | nil => rfl
  | cons item _ ih =>
    have rest := ih fun other mem => each other (mem_cons_of_mem _ mem)
    rw [flatMap_cons, bytes_append, each item mem_cons_self, rest]
    rfl

/-! ## Tables that spell -/

structure Spells (merges : Dict (Nat × Nat) Nat) (specialTokens : Dict String Nat) (vocab : Vocab) : Prop where
  byte : ∀ b : UInt8, vocab b.toNat = some [b]
  merge : ∀ pair id, merges.get? pair = some id →
    ∃ left right, vocab pair.1 = some left ∧ vocab pair.2 = some right ∧ vocab id = some (left ++ right)
  special : ∀ text id, specialTokens.get? text = some id → vocab id = some (utf8 text.toList)

def Ranked : Nat → List ((Nat × Nat) × Nat) → Prop
  | _, [] => True
  | next, (pair, id) :: merges => id = next ∧ pair.1 < next ∧ pair.2 < next ∧ Ranked (next + 1) merges

theorem Ranked.append_singleton {next : Nat} (ranked : Ranked next merges) (left : pair.1 < next + merges.length)
    (right : pair.2 < next + merges.length) : Ranked next (merges ++ [(pair, next + merges.length)]) := by
  induction merges generalizing next with
  | nil => exact ⟨rfl, left, right, trivial⟩
  | cons _ merges ih =>
    obtain ⟨idEq, leftBelow, rightBelow, rest⟩ := ranked
    rw [length_cons] at left right
    have shift : next + (merges.length + 1) = next + 1 + merges.length := by omega
    refine ⟨idEq, leftBelow, rightBelow, ?_⟩
    rw [length_cons, shift]
    exact ih rest (by omega) (by omega)

theorem Ranked.bounds {next : Nat} (ranked : Ranked next merges) {id : Nat} (mem : (pair, id) ∈ merges) :
    pair.1 < id ∧ pair.2 < id ∧ id < next + merges.length := by
  induction merges generalizing next with
  | nil => cases mem
  | cons _ _ ih =>
    obtain ⟨idEq, left, right, rest⟩ := ranked
    rw [length_cons]
    cases mem_cons.mp mem with
    | inl same =>
      subst same
      subst idEq
      exact ⟨left, right, by omega⟩
    | inr later =>
      obtain ⟨leftBelow, rightBelow, below⟩ := ih rest later
      exact ⟨leftBelow, rightBelow, by omega⟩

theorem foldlM_addMerge_spec {next : Nat} {merges : List ((Nat × Nat) × Nat)} {vocab : Vocab}
    (ranked : Ranked next merges) (known : ∀ id, id < next → (vocab id).isSome) :
    ∃ built : Vocab, merges.foldlM addMerge vocab = some built ∧ (∀ id, id < next → built id = vocab id) ∧
      ∀ merge ∈ merges, ∃ left right,
        built merge.1.1 = some left ∧ built merge.1.2 = some right ∧ built merge.2 = some (left ++ right) := by
  induction merges generalizing next vocab with
  | nil => exact ⟨vocab, rfl, fun _ _ => rfl, by simp⟩
  | cons merge _ ih =>
    obtain ⟨pair, id⟩ := merge
    obtain ⟨rfl, leftBelow, rightBelow, rest⟩ := ranked
    obtain ⟨left, leftEq⟩ := Option.isSome_iff_exists.mp (known _ leftBelow)
    obtain ⟨right, rightEq⟩ := Option.isSome_iff_exists.mp (known _ rightBelow)
    have added : addMerge vocab (pair, id) = some (update vocab id (some (left ++ right))) := by
      simp only [addMerge, leftEq, rightEq]
    have knownAfter : ∀ other, other < id + 1 → (update vocab id (some (left ++ right)) other).isSome := by
      intro other below
      by_cases same : other = id
      · simp [same]
      · rw [update_of_ne same]
        exact known other (by omega)
    obtain ⟨built, folded, untouched, spelled⟩ := ih rest knownAfter
    have below : ∀ other, other < id → built other = vocab other := by
      intro other lower
      rw [untouched other (by omega), update_of_ne (by omega)]
    refine ⟨built, ?_, below, ?_⟩
    · rw [foldlM_cons, added]
      exact folded
    · intro merge mem
      cases mem_cons.mp mem with
      | inl same =>
        subst same
        refine ⟨left, right, ?_, ?_, ?_⟩
        · exact (below _ leftBelow).trans leftEq
        · exact (below _ rightBelow).trans rightEq
        · rw [untouched id (by omega), update_self]
      | inr later => exact spelled merge later

theorem foldl_special_spec (distinct : specials.values.Nodup) (vocab : Vocab) :
    let built : Vocab := specials.items.foldl
      (fun vocab special => update vocab special.2 (some (utf8 special.1.toList))) vocab
    (∀ id, id ∉ specials.values → built id = vocab id) ∧
      ∀ text id, specials.get? text = some id → built id = some (utf8 text.toList) := by
  intro built
  have folded : ∀ id, built id = (specials.items.find? fun special => special.2 = id).elim (vocab id)
      fun special => some (utf8 special.1.toList) :=
    @foldl_pointwise _ _ _ _ _ (fun vocab : Vocab => vocab) Prod.snd _ (fun special _ => some (utf8 special.1.toList))
      (fun vocab special id => by simp only [update_apply]) _ distinct vocab
  constructor
  · intro id absent
    rw [folded, find?_eq_none.mpr]
    · rfl
    · intro special mem
      have differs : special.2 ≠ id := fun same => absent (same ▸ mem_map_of_mem mem)
      simpa using differs
  · intro text id held
    have mem := Dict.get?_eq_some.mp held
    rw [folded]
    cases found : specials.items.find? (fun special => special.2 = id) with
    | none => exact absurd (find?_eq_none.mp found _ mem) (by simp)
    | some special =>
      have sameId : special.2 = id := by simpa using find?_some found
      have same : special = (text, id) :=
        inj_on_of_nodup_map distinct (mem_of_find?_eq_some found) mem sameId
      rw [same]
      rfl

theorem rebuild_spells {merges : Dict (Nat × Nat) Nat} (ranked : Ranked 256 merges.items)
    (above : ∀ id ∈ specials.values, 256 + merges.size ≤ id) (distinct : specials.values.Nodup) :
    ∃ vocab, rebuild merges specials = some vocab ∧ Spells merges specials vocab := by
  obtain ⟨built, folded, untouched, spelled⟩ := @foldlM_addMerge_spec 256 merges.items byteVocab ranked
    (fun id below => by simp [byteVocab, below])
  obtain ⟨kept, special⟩ := foldl_special_spec distinct built
  refine ⟨_, by rw [rebuild, folded]; rfl, ?_, ?_, special⟩
  -- Every special token is ranked above the bytes and the merges.
  · intro b
    have small : b.toNat < 256 := b.toNat_lt
    rw [kept _ fun mem => absurd (above _ mem) (by omega), untouched _ small]
    simp [byteVocab, small]
  · intro pair id held
    obtain ⟨left, right, leftEq, rightEq, idEq⟩ := spelled _ (Dict.get?_eq_some.mp held)
    obtain ⟨leftBelow, rightBelow, bound⟩ := ranked.bounds (Dict.get?_eq_some.mp held)
    have lower : ∀ other, other < 256 + merges.size → other ∉ specials.values :=
      fun other small mem => absurd (above _ mem) (by omega)
    refine ⟨left, right, ?_, ?_, ?_⟩
    · rw [kept _ (lower _ (Nat.lt_trans leftBelow bound)), leftEq]
    · rw [kept _ (lower _ (Nat.lt_trans rightBelow bound)), rightEq]
    · rw [kept _ (lower _ bound), idEq]

theorem bytes_applyMerge {newId : Nat} {left right : List UInt8} (leftEq : tok.vocab pair.1 = some left)
    (rightEq : tok.vocab pair.2 = some right) (joined : tok.vocab newId = some (left ++ right)) (ids : List Nat) :
    tok.bytes (applyMerge pair newId ids) = tok.bytes ids := by
  fun_induction applyMerge pair newId ids with
  | case1 _ _ ids here ih =>
    obtain ⟨rfl, rfl⟩ := here
    simp only [bytes_cons, ih, leftEq, rightEq, joined, Option.bind_some]
    cases tok.bytes ids with
    | none => rfl
    | some => simp
  | case2 _ _ _ _ ih => rw [bytes_cons, ih, ← bytes_cons]
  | case3 => rfl

section

variable (spells : Spells tok.merges tok.specialTokens tok.vocab)
include spells

theorem bytes_encodeLoop (left : Nat) (ids : List Nat) :
    tok.bytes (tok.encodeLoop left ids) = tok.bytes ids := by
  induction left generalizing ids with
  | zero => rfl
  | succ _ ih =>
    simp only [BPETokenizer.encodeLoop]
    split
    case isFalse => rfl
    case isTrue =>
      split
      case h_1 => rfl
      case h_2 pair _ _ =>
        split
        case h_1 => rfl
        case h_2 newId merged =>
          obtain ⟨leftBytes, rightBytes, leftEq, rightEq, joined⟩ := spells.merge pair newId merged
          rw [ih, bytes_applyMerge leftEq rightEq joined]

theorem bytes_map_toNat (piece : List UInt8) :
    tok.bytes (piece.map UInt8.toNat) = some piece := by
  induction piece with
  | nil => rfl
  | cons _ _ ih =>
    rw [map_cons, bytes_cons, spells.byte, ih]
    rfl

theorem bytes_encodePiece (piece : List UInt8) :
    tok.bytes (tok.encodePiece piece) = some piece := by
  rw [BPETokenizer.encodePiece, bytes_encodeLoop spells, bytes_map_toNat spells]

end

end Nanoserve.Verified
