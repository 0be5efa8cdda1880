import Nanoserve.Lib.Loops
import Nanoserve.Lib.Runs
import Nanoserve.Verified.Training

/-! # Encoding replays training

`_encode_piece` merges the adjacent pair that was learned earliest, again and again.
-/

namespace Nanoserve.Verified

open Lib Model List
open BPETokenizer (mergeable train)

variable {ids : List Nat} {before after : List ((Nat × Nat) × Nat)}

/-- Every merge once, in the order of the list. -/
def applyMerges (merges : List ((Nat × Nat) × Nat)) (ids : List Nat) : List Nat :=
  merges.foldl (fun ids merge => applyMerge merge.1 merge.2 ids) ids

/-! ## The pair merged next -/

theorem one_lt_length_of_mem_pairs {p : Nat × Nat} (occurs : p ∈ pairs ids) : 1 < ids.length := by
  cases ids with
  | nil => simp [pairs] at occurs
  | cons _ ids =>
    cases ids with
    | nil => simp [pairs] at occurs
    | cons => simp

theorem length_applyMerge_le (pair : Nat × Nat) (newId : Nat) (ids : List Nat) :
    (applyMerge pair newId ids).length ≤ ids.length := by
  fun_induction applyMerge pair newId ids with
  | case1 =>
    simp only [length_cons]
    omega
  | case2 _ _ _ _ ih =>
    simp only [length_cons] at ih ⊢
    omega
  | case3 => exact Nat.le_refl _

theorem length_applyMerge_lt {pair : Nat × Nat} (newId : Nat) (occurs : pair ∈ pairs ids) :
    (applyMerge pair newId ids).length < ids.length := by
  fun_induction applyMerge pair newId ids with
  | case1 _ _ ids =>
    have rest := length_applyMerge_le pair newId ids
    simp only [length_cons]
    omega
  | case2 _ _ _ differs ih =>
    cases mem_pairs_cons.mp occurs with
    | inl front =>
      obtain ⟨_, head, rfl⟩ := front
      exact absurd ⟨rfl, Option.some.inj head⟩ differs
    | inr later =>
      have rest := ih later
      simp only [length_cons] at rest ⊢
      omega
  | case3 ids short =>
    have long := one_lt_length_of_mem_pairs occurs
    cases ids with
    | nil => simp at long
    | cons first ids =>
      cases ids with
      | nil => simp at long
      | cons second ids => exact absurd rfl (short first second ids)

variable {tok : BPETokenizer}

def prefer (tok : BPETokenizer) (best : Option ((Nat × Nat) × Nat)) (pair : Nat × Nat) : Option ((Nat × Nat) × Nat) :=
  match tok.rank pair, best with
  | none, _ => best
  | some rank, none => some (pair, rank)
  | some rank, some (_, bestRank) => if rank < bestRank then some (pair, rank) else best

theorem best_eq (ids : List Nat) : tok.best ids = (pairs ids).foldl (prefer tok) none := rfl

inductive Leads (tok : BPETokenizer) (seen : List (Nat × Nat)) : Option ((Nat × Nat) × Nat) → Prop where
  | none (unranked : ∀ p ∈ seen, tok.rank p = none) : Leads tok seen none
  | some {pair : Nat × Nat} {rank : Nat} (member : pair ∈ seen) (ranked : tok.rank pair = some rank)
      (least : ∀ p ∈ seen, ∀ other, tok.rank p = some other → rank ≤ other) : Leads tok seen (some (pair, rank))

theorem Leads.prefer {seen : List (Nat × Nat)} {best : Option ((Nat × Nat) × Nat)} (leads : Leads tok seen best)
    (pair : Nat × Nat) : Leads tok (seen ++ [pair]) (prefer tok best pair) := by
  have last : pair ∈ seen ++ [pair] := mem_append_right _ mem_cons_self
  cases ranked : tok.rank pair with
  | none =>
    cases leads with
    | none unranked =>
      simp only [Verified.prefer, ranked]
      exact .none (forall_mem_append.mpr ⟨unranked, forall_mem_singleton.mpr ranked⟩)
    | some mem rankedBefore least =>
      simp only [Verified.prefer, ranked]
      refine .some (mem_append_left _ mem) rankedBefore (forall_mem_append.mpr ⟨least, ?_⟩)
      exact forall_mem_singleton.mpr fun other otherRank => absurd (ranked.symm.trans otherRank) (by simp)
  | some rank =>
    have own : ∀ p ∈ [pair], ∀ other, tok.rank p = Option.some other → rank = other :=
      forall_mem_singleton.mpr fun other otherRank => Option.some.inj (ranked.symm.trans otherRank)
    cases leads with
    | none unranked =>
      simp only [Verified.prefer, ranked]
      refine .some last ranked (forall_mem_append.mpr ⟨fun p before other otherRank => ?_, ?_⟩)
      · exact absurd ((unranked p before).symm.trans otherRank) (by simp)
      · exact fun p same other otherRank => (own p same other otherRank).le
    | some mem rankedBefore least =>
      simp only [Verified.prefer, ranked]
      split
      case isTrue lower =>
        refine .some last ranked (forall_mem_append.mpr ⟨fun p before other otherRank => ?_, ?_⟩)
        · exact lower.le.trans (least p before other otherRank)
        · exact fun p same other otherRank => (own p same other otherRank).le
      case isFalse notLower =>
        refine .some (mem_append_left _ mem) rankedBefore (forall_mem_append.mpr ⟨least, ?_⟩)
        exact fun p same other otherRank => own p same other otherRank ▸ Nat.not_lt.mp notLower

theorem leads_best (ids : List Nat) : Leads tok (pairs ids) (tok.best ids) := by
  have fromHere : ∀ (rest seen : List (Nat × Nat)) best, Leads tok seen best →
      Leads tok (seen ++ rest) (rest.foldl (prefer tok) best) := by
    intro rest
    induction rest with
    | nil =>
      intro seen best leads
      rw [append_nil]
      exact leads
    | cons pair _ ih =>
      intro seen best leads
      have next := ih _ _ (leads.prefer pair)
      rw [append_assoc, singleton_append] at next
      exact next
  exact fromHere (pairs ids) [] none (.none fun _ mem => absurd mem not_mem_nil)

/-! ## The loop -/

theorem Ranked.append_inv {next : Nat} (ranked : Ranked next (before ++ after)) :
    Ranked next before ∧ Ranked (next + before.length) after := by
  induction before generalizing next with
  | nil => exact ⟨trivial, ranked⟩
  | cons _ before ih =>
    obtain ⟨idEq, left, right, rest⟩ := ranked
    obtain ⟨front, back⟩ := ih rest
    refine ⟨⟨idEq, left, right, front⟩, ?_⟩
    rw [length_cons, Nat.add_comm before.length, ← Nat.add_assoc]
    exact back

theorem spent_applyMerge {next : Nat} {merge : (Nat × Nat) × Nat} (ranked : Ranked next (before ++ merge :: after))
    (spent : ∀ earlier ∈ before, earlier.1 ∉ pairs ids) :
    ∀ earlier ∈ before ++ [merge], earlier.1 ∉ pairs (applyMerge merge.1 merge.2 ids) := by
  obtain ⟨front, _, _, _, -⟩ := ranked.append_inv
  refine forall_mem_append.mpr ⟨fun earlier mem occurs => ?_, forall_mem_singleton.mpr ?_⟩
  · obtain ⟨_, _, _⟩ := front.bounds mem
    obtain ⟨old, -⟩ | new | new := mem_pairs_applyMerge occurs
    · exact spent earlier mem old
    · omega
    · omega
  · exact not_mem_pairs_applyMerge (by omega) (by omega) ids

theorem rank_eq_some {pair : Nat × Nat} {rank : Nat} : tok.rank pair = some rank ↔ tok.merges.keys[rank]? = some pair := by
  rw [BPETokenizer.rank, idxOf?_eq_some_iff, List.getElem?_eq_some_iff]
  constructor
  · rintro ⟨inside, here, -⟩
    exact ⟨inside, here⟩
  · rintro ⟨inside, here⟩
    refine ⟨inside, here, fun j below same => ?_⟩
    have equal := (Nodup.getElem_inj_iff tok.merges.nodup_keys).mp (same.trans here.symm)
    omega

theorem best_of_spent {merge : (Nat × Nat) × Nat} (split : tok.merges.items = before ++ merge :: after)
    (spent : ∀ earlier ∈ before, earlier.1 ∉ pairs ids) (occurs : merge.1 ∈ pairs ids) :
    tok.best ids = some (merge.1, before.length) := by
  have keys : tok.merges.keys = before.map Prod.fst ++ merge.1 :: after.map Prod.fst := by
    rw [Dict.keys, split, map_append, map_cons]
  have own : tok.rank merge.1 = some before.length := by
    rw [rank_eq_some, keys, getElem?_append_right (by simp)]
    simp
  have leads := @leads_best tok ids
  generalize tok.best ids = best at leads
  cases leads with
  | none unranked => exact absurd ((unranked _ occurs).symm.trans own) (by simp)
  | @some pair rank mem ranked least =>
    have most := least _ occurs _ own
    have place := rank_eq_some.mp ranked
    rw [keys] at place
    rcases Nat.lt_or_ge rank before.length with lower | notLower
    · rw [getElem?_append_left (by simpa using lower)] at place
      obtain ⟨earlier, earlierMember, rfl⟩ := mem_map.mp (mem_of_getElem? place)
      exact absurd mem (spent earlier earlierMember)
    · obtain rfl : rank = before.length := Nat.le_antisymm most notLower
      obtain rfl : pair = merge.1 := Option.some.inj ((rank_eq_some.mp ranked).symm.trans (rank_eq_some.mp own))
      rfl

theorem loop_mergeBest (ranked : Ranked 256 tok.merges.items) {fuel : Nat} (enough : ids.length ≤ fuel) :
    loop tok.mergeable tok.mergeBest fuel ids = .ok (some (applyMerges tok.merges.items ids)) ∧
      ∀ merge ∈ tok.merges.items, merge.1 ∉ pairs (applyMerges tok.merges.items ids) := by
  refine @loop_priority _ _ tok.mergeable tok.mergeBest _ tok.merges.items (fun merge ids => merge.1 ∈ pairs ids)
    (fun merge ids => applyMerge merge.1 merge.2 ids) length _ ?_ ?_ ?_ ids fuel enough
  · exact fun merge ids absent => applyMerge_of_absent absent
  · intro before merge after ids split spent occurs
    have chosen := best_of_spent split spent occurs
    have held : tok.merges.get? merge.1 = some merge.2 := by
      rw [Dict.get?_eq_some, split]
      exact mem_append_right _ mem_cons_self
    have shorter := length_applyMerge_lt merge.2 occurs
    refine ⟨?_, ?_, shorter, spent_applyMerge (split ▸ ranked) spent⟩
    · simp only [mergeable, chosen, Option.isSome_some, Bool.and_true, decide_eq_true_eq]
      exact one_lt_length_of_mem_pairs occurs
    · simp only [BPETokenizer.mergeBest, chosen, held]
  · intro ids spent
    have leads := @leads_best tok ids
    generalize found : tok.best ids = best at leads
    cases leads with
    | none => simp [mergeable, found]
    | some mem place =>
      obtain ⟨merge, mergeMember, rfl⟩ := mem_map.mp (mem_of_getElem? (rank_eq_some.mp place))
      exact absurd mem (spent merge mergeMember)

theorem encodeLoop_of_loop {fuel : Nat} {last : List Nat}
    (ran : loop tok.mergeable tok.mergeBest fuel ids = .ok (some last)) : tok.encodeLoop fuel ids = last := by
  induction fuel generalizing ids with
  | zero =>
    simp only [loop, Except.ok.injEq] at ran
    split at ran
    · cases ran
    · exact Option.some.inj ran
  | succ _ ih =>
    unfold BPETokenizer.encodeLoop
    rw [loop] at ran
    by_cases long : ids.length > 1
    · rw [if_pos long]
      cases found : tok.best ids with
      | none =>
        simp only [mergeable, found, Option.isSome_none, Bool.and_false] at ran
        exact Option.some.inj (Except.ok.inj ran)
      | some best =>
        cases held : tok.merges.get? best.1 with
        | none => simp [mergeable, BPETokenizer.mergeBest, found, long, held] at ran
        | some =>
          simp only [mergeable, BPETokenizer.mergeBest, found, long, held, Option.isSome_some, decide_true,
            Bool.and_self, if_true] at ran
          simp only [held]
          exact ih ran
    · rw [if_neg long]
      simp only [mergeable, long, decide_false, Bool.false_and] at ran
      exact Option.some.inj (Except.ok.inj ran)

theorem encodePiece_eq (ranked : Ranked 256 tok.merges.items) (piece : List UInt8) :
    tok.encodePiece piece = applyMerges tok.merges.items (piece.map UInt8.toNat) :=
  encodeLoop_of_loop (loop_mergeBest ranked (by rw [length_map])).1

theorem memoAfter_exact (earlier : List (List UInt8)) {piece : List UInt8}
    (held : (tok.memoAfter earlier).get? piece = some ids) : ids = tok.encodePiece piece := by
  have folded : ∀ (earlier : List (List UInt8)) (memo : BPETokenizer.Memo),
      (∀ piece ids, memo.get? piece = some ids → ids = tok.encodePiece piece) →
      ∀ piece ids, (earlier.foldl (fun memo piece => (tok.recallPiece memo piece).2) memo).get? piece = some ids →
        ids = tok.encodePiece piece := by
    intro earlier
    induction earlier with
    | nil => exact fun memo exact => exact
    | cons _ _ ih =>
      intro memo exact
      refine ih _ fun piece ids held => ?_
      simp only [BPETokenizer.recallPiece] at held
      split at held
      case h_1 => exact exact piece ids held
      case h_2 =>
        rw [Dict.get?_set] at held
        split at held
        case isTrue same => exact same ▸ (Option.some.inj held).symm
        case isFalse => exact exact piece ids held
  exact folded earlier .empty (fun _ _ held => absurd held (by simp)) piece ids held

theorem recallPiece_eq (earlier : List (List UInt8)) (piece : List UInt8) :
    (tok.recallPiece (tok.memoAfter earlier) piece).1 = tok.encodePiece piece := by
  unfold BPETokenizer.recallPiece
  split
  case h_1 _ held => exact memoAfter_exact earlier held
  case h_2 => rfl

/-! ## Training -/

theorem mergeLoop_replays {tr : Training} (learned : Learned tr) (least : Int) (steps : Nat) :
    ∃ more, (tr.mergeLoop least steps).merges.items = tr.merges.items ++ more ∧
      (tr.mergeLoop least steps).words = tr.words.map (applyMerges more) := by
  induction steps generalizing tr with
  | zero => exact ⟨[], (append_nil _).symm, (map_id _).symm⟩
  | succ _ ih =>
    unfold Training.mergeLoop
    cases found : tr.index.best with
    | none => exact ⟨[], (append_nil _).symm, (map_id _).symm⟩
    | some item =>
      dsimp only
      split
      · exact ⟨[], (append_nil _).symm, (map_id _).symm⟩
      · obtain ⟨_, _, _, left, right, fresh⟩ := learned.found found
        obtain ⟨words, -, merges, -, -⟩ := merge_spec learned left right
        obtain ⟨more, items, wordsAfter⟩ := ih (learned.merge found)
        refine ⟨(item.1, tr.nextId) :: more, ?_, ?_⟩
        · rw [items, merges, Dict.items_set_of_absent fresh, append_assoc, singleton_append]
        · rw [wordsAfter, words, map_map]
          rfl

section Train

variable {cls : CharClasses} {corpus : List Text} {vocabSize : Int} {specials : List String}
  {least : Int}

theorem train_ranked (trained : train cls corpus vocabSize specials least = .ok tok) :
    Ranked 256 tok.merges.items := by
  rw [(train_inv trained).2.2.1]
  exact finalTraining_learned.ranked

theorem train_words (trained : train cls corpus vocabSize specials least = .ok tok) :
    (finalTraining cls corpus vocabSize specials least).words =
      (collapse cls corpus).keys.map tok.encodePiece := by
  obtain ⟨more, items, words⟩ := mergeLoop_replays (start_learned (collapse_positive cls corpus)) least
    (vocabSize - 256 - specials.length).toNat
  have all : tok.merges.items = more := (congrArg Dict.items (train_inv trained).2.2.1).trans items
  refine words.trans ?_
  rw [Training.start, map_map]
  apply map_congr_left
  intro word _
  rw [encodePiece_eq (train_ranked trained), all]
  rfl

end Train

/-- The pre-tokens of the corpus, each with the ids training ended with for it. -/
def segmentation (classes : CharClasses) (corpus : List Text) (vocabSize : Int) (specialTokens : List String)
    (minFrequency : Int) : List (List UInt8 × List Nat) :=
  (collapse classes corpus).keys.zip (finalTraining classes corpus vocabSize specialTokens minFrequency).words

/-- Encoding a piece ends, with what every merge applied once in the order of training gives. -/
theorem encoding_replays_training (classes : CharClasses) (corpus : List Text) (vocabSize : Int)
    (specialTokens : List String) (minFrequency : Int) {tok : BPETokenizer}
    (trained : train classes corpus vocabSize specialTokens minFrequency = .ok tok) :
    (∀ piece : List UInt8,
      (∀ fuel ≥ piece.length, loop tok.mergeable tok.mergeBest fuel (piece.map UInt8.toNat) =
          .ok (some (tok.encodePiece piece))) ∧
        tok.encodePiece piece = applyMerges tok.merges.items (piece.map UInt8.toNat) ∧
        tok.bytes (tok.encodePiece piece) = some piece ∧
        (∀ pair ∈ pairs (tok.encodePiece piece), tok.merges.get? pair = none) ∧
        ∀ earlier, (tok.recallPiece (tok.memoAfter earlier) piece).1 = tok.encodePiece piece) ∧
      ∀ text ∈ corpus, ∀ pretoken ∈ findall classes text, ∀ ids,
        (utf8 pretoken, ids) ∈ segmentation classes corpus vocabSize specialTokens minFrequency ↔
          ids = tok.encodePiece (utf8 pretoken) := by
  have ranked := train_ranked trained
  refine ⟨fun piece => ⟨fun fuel enough => ?_, encodePiece_eq ranked piece,
    bytes_encodePiece (train_spells trained) piece, fun pair occurs => ?_, fun earlier => recallPiece_eq earlier piece⟩,
    fun text textMember pretoken member ids => ?_⟩
  · rw [encodePiece_eq ranked]
    exact (loop_mergeBest ranked (by rw [List.length_map]; exact enough)).1
  · rw [encodePiece_eq ranked] at occurs
    have spent := (loop_mergeBest ranked (Nat.le_refl (piece.map UInt8.toNat).length)).2
    refine Dict.get?_eq_none.mpr fun merged => ?_
    obtain ⟨merge, mergeMember, rfl⟩ := List.mem_map.mp merged
    exact spent merge mergeMember occurs
  · have key : utf8 pretoken ∈ (collapse classes corpus).keys :=
      mem_keys_collapse.mpr ⟨text, textMember, pretoken, member, rfl⟩
    rw [segmentation, train_words trained, ← List.map_prod_left_eq_zip, List.mem_map]
    constructor
    · rintro ⟨word, -, same⟩
      cases same
      rfl
    · rintro rfl
      exact ⟨_, key, rfl⟩

/-- A run of equal bytes is merged from the left, and its merge is merged with itself. -/
theorem encoding_replays_training_run :
    (∃ tok, train asciiClasses ["aaaa aaaa aab".toList] 259 [END_OF_TEXT] 2 = .ok tok ∧
      ((∀ piece : List UInt8,
        (∀ fuel ≥ piece.length, loop tok.mergeable tok.mergeBest fuel (piece.map UInt8.toNat) =
            .ok (some (tok.encodePiece piece))) ∧
          tok.encodePiece piece = applyMerges tok.merges.items (piece.map UInt8.toNat) ∧
          tok.bytes (tok.encodePiece piece) = some piece ∧
          (∀ pair ∈ pairs (tok.encodePiece piece), tok.merges.get? pair = none) ∧
          ∀ earlier, (tok.recallPiece (tok.memoAfter earlier) piece).1 = tok.encodePiece piece) ∧
        ∀ text ∈ ["aaaa aaaa aab".toList], ∀ pretoken ∈ findall asciiClasses text, ∀ ids,
          (utf8 pretoken, ids) ∈ segmentation asciiClasses ["aaaa aaaa aab".toList] 259 [END_OF_TEXT] 2 ↔
            ids = tok.encodePiece (utf8 pretoken))) ∧
      Yields (train asciiClasses ["aaaa aaaa aab".toList] 259 [END_OF_TEXT] 2) fun tok =>
        tok.merges.items = [((97, 97), 256), ((256, 256), 257)] ∧
          tok.encodePiece [97, 97, 97, 97, 97, 97, 97] = [257, 256, 97] := by
  refine ⟨?_, by decide +kernel⟩
  obtain ⟨tok, trained, -⟩ := train_spec asciiClasses ["aaaa aaaa aab".toList] 2
    (show 256 + (([END_OF_TEXT].length : Nat) : Int) ≤ 259 by decide)
  exact ⟨tok, trained, encoding_replays_training _ _ _ _ _ trained⟩

end Nanoserve.Verified
