import Nanoserve.Model.Generate
import Nanoserve.Verified.Blocks
import Nanoserve.Verified.Greedy
import Nanoserve.Verified.Transcript

/-! # The reference generator

What `generate_stream` yields is the text of the longest final part of what it has produced, as with
the front ends.
-/

namespace Nanoserve.Verified

open Engine Lib Model List
open Model.Generate (Generation Raised Sampling generateStream)
open Utf8 (Ragged)

variable {X V L S : Type} {cfg : Config X V L S} {tok : BPETokenizer}

structure Said (tok : BPETokenizer) (generation : Generation V L S) : Prop where
  emitted : generation.emitted = generation.yielded.flatten.length
  finalPart : ∃ part, FinalPart tok generation.produced part generation.yielded.flatten

section Said

variable {generation gen : Generation V L S} {token : Nat} {text : Text}

theorem Said.hold (said : Said tok generation) (gen : S)
    (decoded : tok.decode (generation.produced ++ [token]) = some text) (ragged : Ragged text) :
    Said tok { generation with gen, produced := generation.produced ++ [token] } := by
  obtain ⟨emitted, part, finalPart⟩ := said
  exact ⟨emitted, part, finalPart.withhold decoded ragged⟩

theorem Said.yield (said : Said tok generation) (gen : S)
    (decoded : tok.decode (generation.produced ++ [token]) = some text) (final : ¬Ragged text) :
    Said tok (Generation.yield { generation with gen, produced := generation.produced ++ [token] } text) := by
  obtain ⟨emitted, _, finalPart⟩ := said
  obtain ⟨more, textEq⟩ := finalPart.grows decoded
  unfold Generation.yield
  split
  case isTrue =>
    have flattened : (generation.yielded ++ [text.drop generation.emitted]).flatten = text := by
      rw [flatten_append, flatten_singleton, emitted, ← textEq, drop_left]
    refine ⟨congrArg List.length flattened.symm, generation.produced ++ [token], ?_⟩
    rw [flattened]
    exact .whole decoded final
  case isFalse short =>
    -- The text is final but no longer than what was said.
    have nothing : more = [] := by
      rw [emitted, ← textEq, length_append] at short
      exact length_eq_zero_iff.mp (by omega)
    rw [nothing, append_nil] at textEq
    refine ⟨emitted, generation.produced ++ [token], ?_⟩
    rw [textEq]
    exact .whole decoded final

theorem feed_eq (model : NanoForCausalLM X V L) (gen : Generation V L S) (tokens : List Nat) :
    ∃ logits cache, gen.feed model tokens = { gen with logits, cache } := by
  unfold Generation.feed
  cases model.forward (DynamicCache.protocol Empty V) [tokens] none none gen.cache with
  | error raised => exact raised.elim
  | ok result => exact ⟨result.1, result.2, rfl⟩

theorem Said.feed (said : Said tok gen) (model : NanoForCausalLM X V L) (tokens : List Nat) :
    Said tok (gen.feed model tokens) := by
  obtain ⟨_, _, fed⟩ := feed_eq model gen tokens
  rw [fed]
  exact ⟨said.emitted, said.finalPart⟩

theorem produced_feed (model : NanoForCausalLM X V L) (tokens : List Nat) :
    (gen.feed model tokens).produced = gen.produced := by
  obtain ⟨_, _, fed⟩ := feed_eq model gen tokens
  rw [fed]

theorem produced_yield : (gen.yield text).produced = gen.produced := by
  unfold Generation.yield
  split <;> rfl

theorem cache_yield : (gen.yield text).cache = gen.cache := by
  unfold Generation.yield
  split <;> rfl

end Said

theorem loop_said {model : NanoForCausalLM X V L} {sampling : Sampling L S} {params : Generate.SamplingParams}
    {left : Nat} {gen last : Generation V L S}
    (ran : Generate.loop model sampling tok params gen left = .ok last) :
    gen.produced <+: last.produced ∧ (Said tok gen → Said tok last) := by
  induction left generalizing gen with
  | zero =>
    cases ran
    exact ⟨prefix_rfl, id⟩
  | succ _ ih =>
    rw [Generate.loop] at ran
    split at ran
    case h_1 => cases ran
    case h_2 =>
      dsimp only at ran
      split at ran
      case h_1 => cases ran
      case h_2 =>
        cases ran
        exact ⟨prefix_rfl, fun said => ⟨said.emitted, said.finalPart⟩⟩
      case h_3 =>
        split at ran
        case h_1 => cases ran
        case h_2 _ decoded =>
          split at ran
          case isTrue ragged =>
            obtain ⟨grows, keeps⟩ := ih ran
            exact ⟨(prefix_append _ _).trans grows, fun said => keeps (said.hold _ decoded ragged)⟩
          case isFalse final =>
            obtain ⟨grows, keeps⟩ := ih ran
            rw [produced_feed, produced_yield] at grows
            exact ⟨(prefix_append _ _).trans grows, fun said => keeps ((said.yield _ decoded final).feed _ _)⟩

/-- The parameters of the greedy loop that stops as asked. -/
def untilEos (params : Generate.SamplingParams) : SamplingParams := { ignoreEos := !params.stopAtEos }

structure Loaded (cfg : Config X V L S) (context : List Nat) (generation : Generation V L S) : Prop where
  holds : Holds cfg.model context generation.cache
  last : (generation.logits.headD []).getLast? = some (logitsAt cfg.model context (context.length - 1))

theorem Loaded.feed {gen : Generation V L S} {context tokens : List Nat}
    (holds : Holds cfg.model context gen.cache) (some' : tokens ≠ []) :
    Loaded cfg (context ++ tokens) (gen.feed cfg.model tokens) := by
  obtain ⟨next, ran, holdsNext⟩ := @Holds.forward X V L Empty cfg.model context tokens gen.cache holds
  have fed : gen.feed cfg.model tokens =
      { gen with
        logits := [(range' context.length tokens.length).map (logitsAt cfg.model (context ++ tokens))]
        cache := next } := by
    simp only [Generation.feed, ran]
  rw [fed]
  refine ⟨holdsNext, ?_⟩
  simp only [headD_cons]
  rw [getLast?_range'_map _ (length_pos_iff.mpr some'), length_append]

section Rounds

variable {draw : Generate.SamplingParams → L → S → Nat × S} {params : Generate.SamplingParams} {ids : List Nat}

theorem stops_eq (special : tok.eosId = some cfg.eosTokenId) (token : Nat) :
    Generate.stops tok params token = .ok (decide (token = cfg.eosTokenId ∧ ¬(untilEos params).ignoreEos)) := by
  rw [Generate.stops]
  cases stopping : params.stopAtEos <;> simp [special, untilEos, stopping]

/-- The rounds of the generator, for the model and the argmax of an engine. -/
abbrev generatorLoop (cfg : Config X V L S) (draw : Generate.SamplingParams → L → S → Nat × S) (tok : BPETokenizer)
    (params : Generate.SamplingParams) (gen : Generation V L S) (left : Nat) : Except Raised (Generation V L S) :=
  Generate.loop cfg.model ⟨cfg.argmax, draw⟩ tok params gen left

abbrev EndsAfter (cfg : Config X V L S) (params : Generate.SamplingParams) (context : List Nat) : Prop :=
  nextToken cfg context = cfg.eosTokenId ∧ ¬(untilEos params).ignoreEos

theorem loop_succ {gen : Generation V L S} {context : List Nat} (loaded : Loaded cfg context gen)
    (greedy : params.greedy) (special : tok.eosId = some cfg.eosTokenId) (left : Nat) :
    generatorLoop cfg draw tok params gen (left + 1) =
      if EndsAfter cfg params context then .ok gen
      else
        match tok.decode (gen.produced ++ [nextToken cfg context]) with
        | none => .error .keyError
        | some text =>
          if Ragged text then
            generatorLoop cfg draw tok params { gen with produced := gen.produced ++ [nextToken cfg context] } left
          else
            generatorLoop cfg draw tok params
              ((Generation.yield { gen with produced := gen.produced ++ [nextToken cfg context] } text).feed
                cfg.model [nextToken cfg context]) left := by
  have picked : Generate.sample ⟨cfg.argmax, draw⟩ params (logitsAt cfg.model context (context.length - 1)) gen.gen =
      (nextToken cfg context, gen.gen) := by
    rw [Generate.sample, if_pos greedy]
    rfl
  rw [generatorLoop, Generate.loop, loaded.last]
  simp only [picked, stops_eq special]
  cases stop : decide (EndsAfter cfg params context) with
  | true => exact (if_pos (of_decide_eq_true stop)).symm
  | false => exact (if_neg (of_decide_eq_false stop)).symm

/-! ## Going on or standing still -/

inductive Standing (cfg : Config X V L S) (tok : BPETokenizer) (params : Generate.SamplingParams) (ids fed : List Nat) :
    List Nat → Prop
  | inStep (text : Text) (decoded : tok.decode fed = some text) (final : ¬Ragged text) :
    Standing cfg tok params ids fed fed
  | stalled (text more : Text) (decoded : tok.decode fed = some text) (final : ¬Ragged text)
    (goesOn : ¬EndsAfter cfg params (ids ++ fed))
    (held : tok.decode (fed ++ [nextToken cfg (ids ++ fed)]) = some more) (ragged : Ragged more) (count : Nat) :
    Standing cfg tok params ids fed (fed ++ replicate (count + 1) (nextToken cfg (ids ++ fed)))

theorem ragged_again {fed : List Nat} {token : Nat} {text more : Text} (decoded : tok.decode fed = some text)
    (final : ¬Ragged text) (held : tok.decode (fed ++ [token]) = some more) (ragged : Ragged more)
    (count : Nat) :
    ∃ longer, tok.decode (fed ++ replicate (count + 1) token) = some longer ∧ Ragged longer := by
  obtain ⟨_, aloneDecoded, rfl⟩ := decode_append decoded final held
  obtain ⟨bytes, spelled, rfl⟩ := decode_eq_some.mp aloneDecoded
  have raggedAlone : Ragged (Utf8.decode bytes) := by
    refine ragged.of_append_right fun empty => final ?_
    rwa [empty, append_nil] at ragged
  have copies : tok.bytes (replicate (count + 1) token) = some (replicate (count + 1) bytes).flatten := by
    have each := @bytes_flatMap tok Nat (replicate (count + 1) token) (fun token => [token]) (fun _ => bytes)
      fun item mem => by rw [eq_of_mem_replicate mem]; exact spelled
    simpa [flatMap_replicate] using each
  refine ⟨_, decode_append_some decoded final (decode_eq_some.mpr ⟨_, copies, rfl⟩), ?_⟩
  exact (Utf8.ragged_replicate raggedAlone count).of_append

def Repeats (cfg : Config X V L S) (tok : BPETokenizer) (params : Generate.SamplingParams) (ids : List Nat) (left : Nat)
    (produced : List Nat) : Prop :=
  ∀ output text, produced <+: output → output <+: (greedyLoop cfg (untilEos params) ids left produced).1 →
    output.length < produced.length + left → tok.decode output = some text → Ragged text →
    [nextToken cfg (ids ++ output)] <:+ output

theorem repeats_succ {left : Nat} {produced : List Nat}
    (goesOn : ¬EndsAfter cfg params (ids ++ produced)) :
    Repeats cfg tok params ids (left + 1) produced ↔
      (∀ text, tok.decode produced = some text → Ragged text → [nextToken cfg (ids ++ produced)] <:+ produced) ∧
        Repeats cfg tok params ids left (produced ++ [nextToken cfg (ids ++ produced)]) := by
  have loop : greedyLoop cfg (untilEos params) ids (left + 1) produced =
      greedyLoop cfg (untilEos params) ids left (produced ++ [nextToken cfg (ids ++ produced)]) := by
    rw [greedyLoop, if_neg goesOn]
  have longer := @greedyLoop_extends X V L S cfg (untilEos params) ids left (produced ++ [nextToken cfg (ids ++ produced)])
  constructor
  · intro repeats
    constructor
    · intro text decoded ragged
      refine repeats produced text prefix_rfl ?_ (by omega) decoded ragged
      rw [loop]
      exact (prefix_append _ _).trans longer
    · intro output text begins within short decoded ragged
      rw [length_append, length_singleton] at short
      exact repeats output text ((prefix_append _ _).trans begins) (by rw [loop]; exact within) (by omega) decoded ragged
  · rintro ⟨now, later⟩ output text begins within short decoded ragged
    rw [loop] at within
    by_cases same : output = produced
    · subst same
      exact now text decoded ragged
    · -- One token more than `produced`, so the token the loop picked is in it.
      have more : produced.length < output.length :=
        Nat.lt_of_le_of_ne begins.length_le fun equal => same (begins.eq_of_length equal).symm
      refine later output text ?_ within (by rw [length_append, length_singleton]; omega) decoded ragged
      exact prefix_of_prefix_length_le longer within (by rw [length_append, length_singleton]; omega)

theorem Standing.decoded {fed produced : List Nat} (standing : Standing cfg tok params ids fed produced) :
    ∃ text, tok.decode produced = some text := by
  cases standing with
  | inStep text decoded => exact ⟨text, decoded⟩
  | stalled _ _ decoded final _ held ragged count =>
    obtain ⟨longer, longerDecoded, -⟩ := ragged_again decoded final held ragged count
    exact ⟨longer, longerDecoded⟩

def Agrees (cfg : Config X V L S) (draw : Generate.SamplingParams → L → S → Nat × S) (tok : BPETokenizer)
    (params : Generate.SamplingParams) (ids : List Nat) (left : Nat) (generation : Generation V L S) : Prop :=
  ∃ last, generatorLoop cfg draw tok params generation left = .ok last ∧
    last.produced = (greedyLoop cfg (untilEos params) ids left generation.produced).1

theorem not_agrees_of_stalled {left : Nat} {gen : Generation V L S} {token : Nat}
    (round : generatorLoop cfg draw tok params gen (left + 1) =
      generatorLoop cfg draw tok params { gen with produced := gen.produced ++ [token] } left)
    (differs : nextToken cfg (ids ++ gen.produced) ≠ token) :
    ¬Agrees cfg draw tok params ids (left + 1) gen := by
  rintro ⟨_, ran, same⟩
  rw [round] at ran
  have mine := (loop_said ran).1
  rw [same, greedyLoop] at mine
  split at mine
  · have lengths : (gen.produced ++ [token]).length ≤ gen.produced.length := mine.length_le
    rw [length_append, length_singleton] at lengths
    omega
  · have theirs := @greedyLoop_extends X V L S cfg (untilEos params) ids left
      (gen.produced ++ [nextToken cfg (ids ++ gen.produced)])
    have equal := (prefix_of_prefix_length_le mine theirs (by simp)).eq_of_length (by simp)
    rw [append_cancel_left_eq, cons.injEq] at equal
    exact differs equal.1.symm

def Decided (cfg : Config X V L S) (draw : Generate.SamplingParams → L → S → Nat × S) (tok : BPETokenizer)
    (params : Generate.SamplingParams) (ids : List Nat) (left : Nat) : Prop :=
  ∀ (fed produced : List Nat) (generation : Generation V L S), generation.produced = produced →
    Loaded cfg (ids ++ fed) generation → Standing cfg tok params ids fed produced →
    (Agrees cfg draw tok params ids left generation ↔
      (∃ text, tok.decode (greedyLoop cfg (untilEos params) ids left produced).1 = some text) ∧
        Repeats cfg tok params ids left produced)

theorem decided_zero : Decided cfg draw tok params ids 0 := by
  intro fed produced gen here loaded standing
  refine iff_of_true ⟨gen, rfl, rfl⟩ ⟨standing.decoded, ?_⟩
  intro output text begins within short
  exact absurd begins.length_le (by omega)

section Round

variable {left : Nat} {fed : List Nat} {gen : Generation V L S} {text : Text}

theorem decided_ends (here : gen.produced = fed) (decoded : tok.decode fed = some text)
    (final : ¬Ragged text) (ends : EndsAfter cfg params (ids ++ fed))
    (round : generatorLoop cfg draw tok params gen (left + 1) = .ok gen) :
    Agrees cfg draw tok params ids (left + 1) gen ∧
      (∃ all, tok.decode (greedyLoop cfg (untilEos params) ids (left + 1) fed).1 = some all) ∧
        Repeats cfg tok params ids (left + 1) fed := by
  have stopped : greedyLoop cfg (untilEos params) ids (left + 1) fed = (fed, .eos) := by
    rw [greedyLoop, if_pos ends]
  rw [stopped]
  refine ⟨⟨gen, round, by rw [here, stopped]⟩, ⟨text, decoded⟩, ?_⟩
  intro output outputText begins within short outputDecoded ragged
  rw [stopped] at within
  obtain rfl := begins.eq_of_length_le within.length_le
  obtain rfl := Option.some.inj (decoded.symm.trans outputDecoded)
  exact absurd ragged final

theorem decided_goes (later : Decided cfg draw tok params ids left) (here : gen.produced = fed)
    (loaded : Loaded cfg (ids ++ fed) gen) (decoded : tok.decode fed = some text) (final : ¬Ragged text)
    (goesOn : ¬EndsAfter cfg params (ids ++ fed)) (greedy : params.greedy)
    (special : tok.eosId = some cfg.eosTokenId) :
    Agrees cfg draw tok params ids (left + 1) gen ↔
      (∃ all, tok.decode (greedyLoop cfg (untilEos params) ids (left + 1) fed).1 = some all) ∧
        Repeats cfg tok params ids (left + 1) fed := by
  have round := @loop_succ _ _ _ _ cfg tok draw params gen (ids ++ fed) loaded greedy special left
  have goes : greedyLoop cfg (untilEos params) ids (left + 1) fed =
      greedyLoop cfg (untilEos params) ids left (fed ++ [nextToken cfg (ids ++ fed)]) := by
    rw [greedyLoop, if_neg goesOn]
  have now : ∀ other, tok.decode fed = some other → Ragged other → [nextToken cfg (ids ++ fed)] <:+ fed := by
    intro other otherDecoded ragged
    obtain rfl := Option.some.inj (decoded.symm.trans otherDecoded)
    exact absurd ragged final
  rw [if_neg goesOn, here] at round
  rw [goes, repeats_succ goesOn, and_iff_right now, Agrees, round, here, goes]
  cases held : tok.decode (fed ++ [nextToken cfg (ids ++ fed)]) with
  | none =>
    -- A token outside the vocabulary raises, and is part of the greedy output.
    refine iff_of_false (by rintro ⟨_, ran, -⟩; cases ran) ?_
    rintro ⟨⟨all, allDecoded⟩, -⟩
    obtain ⟨_, restEq⟩ := greedyLoop_extends (untilEos params) ids left
      (fed ++ [nextToken cfg (ids ++ fed)])
    rw [← restEq] at allDecoded
    obtain ⟨_, beforeDecoded⟩ := decode_of_append allDecoded
    rw [held] at beforeDecoded
    cases beforeDecoded
  | some more =>
    dsimp only
    split
    case isTrue ragged =>
      exact later fed _ { gen with produced := fed ++ [nextToken cfg (ids ++ fed)] } rfl
        ⟨loaded.holds, loaded.last⟩ (.stalled text more decoded final goesOn held ragged 0)
    case isFalse whole =>
      have fedNext : Loaded cfg (ids ++ (fed ++ [nextToken cfg (ids ++ fed)]))
          ((Generation.yield { gen with produced := fed ++ [nextToken cfg (ids ++ fed)] } more).feed
            cfg.model [nextToken cfg (ids ++ fed)]) := by
        rw [← append_assoc]
        exact .feed (by rw [cache_yield]; exact loaded.holds) (cons_ne_nil _ _)
      have producedNext : ((Generation.yield { gen with
          produced := fed ++ [nextToken cfg (ids ++ fed)] } more).feed cfg.model
            [nextToken cfg (ids ++ fed)]).produced = fed ++ [nextToken cfg (ids ++ fed)] := by
        rw [produced_feed, produced_yield]
      have next := later _ _ _ producedNext fedNext (.inStep more held whole)
      rw [Agrees, producedNext] at next
      exact next

theorem decided_stalled (later : Decided cfg draw tok params ids left) {more : Text} {count : Nat}
    (here : gen.produced = fed ++ replicate (count + 1) (nextToken cfg (ids ++ fed)))
    (loaded : Loaded cfg (ids ++ fed) gen) (decoded : tok.decode fed = some text) (final : ¬Ragged text)
    (goesOn : ¬EndsAfter cfg params (ids ++ fed))
    (held : tok.decode (fed ++ [nextToken cfg (ids ++ fed)]) = some more) (ragged : Ragged more)
    (greedy : params.greedy) (special : tok.eosId = some cfg.eosTokenId) :
    Agrees cfg draw tok params ids (left + 1) gen ↔
      (∃ all, tok.decode (greedyLoop cfg (untilEos params) ids (left + 1) gen.produced).1 = some all) ∧
        Repeats cfg tok params ids (left + 1) gen.produced := by
  obtain ⟨present, presentDecoded, presentRagged⟩ := ragged_again decoded final held ragged count
  obtain ⟨_, longerDecoded, longerRagged⟩ := ragged_again decoded final held ragged (count + 1)
  have again : gen.produced ++ [nextToken cfg (ids ++ fed)] =
      fed ++ replicate (count + 1 + 1) (nextToken cfg (ids ++ fed)) := by
    rw [here, append_assoc, ← replicate_succ']
  have ends : [nextToken cfg (ids ++ fed)] <:+ gen.produced := by
    rw [here, replicate_succ', ← append_assoc]
    exact suffix_append _ _
  have round : generatorLoop cfg draw tok params gen (left + 1) =
      generatorLoop cfg draw tok params { gen with produced := gen.produced ++ [nextToken cfg (ids ++ fed)] } left := by
    rw [loop_succ loaded greedy special left, if_neg goesOn, again, longerDecoded]
    exact if_pos longerRagged
  rw [← here] at presentDecoded
  by_cases same : nextToken cfg (ids ++ gen.produced) = nextToken cfg (ids ++ fed)
  · have goes : ¬EndsAfter cfg params (ids ++ gen.produced) := by
      rw [EndsAfter, same]
      exact goesOn
    have next := later fed _ { gen with produced := gen.produced ++ [nextToken cfg (ids ++ fed)] }
      again ⟨loaded.holds, loaded.last⟩ (.stalled text more decoded final goesOn held ragged (count + 1))
    rw [repeats_succ goes, greedyLoop, if_neg goes, same, and_iff_right fun _ _ _ => ends, again, ← next, Agrees, round,
      greedyLoop, if_neg goes, same]
    exact Iff.rfl
  · refine iff_of_false (not_agrees_of_stalled round same) ?_
    rintro ⟨-, repeats⟩
    obtain ⟨_, frontEq⟩ := repeats gen.produced present prefix_rfl (greedyLoop_extends _ _ _ _)
      (by omega) presentDecoded presentRagged
    obtain ⟨_, otherEq⟩ := ends
    have lasts := congrArg getLast? (frontEq.trans otherEq.symm)
    simp only [getLast?_append, getLast?_singleton, Option.some_or, Option.some.injEq] at lasts
    exact same lasts

end Round

theorem decided (greedy : params.greedy) (special : tok.eosId = some cfg.eosTokenId) (left : Nat) :
    Decided cfg draw tok params ids left := by
  induction left with
  | zero => exact decided_zero
  | succ left ih =>
    intro fed produced gen here loaded standing
    cases standing with
    | inStep _ decoded final =>
      by_cases ends : EndsAfter cfg params (ids ++ fed)
      · have round := @loop_succ _ _ _ _ cfg tok draw params gen (ids ++ fed) loaded greedy special left
        rw [if_pos ends] at round
        obtain ⟨agrees, rest⟩ := decided_ends here decoded final ends round
        exact iff_of_true agrees rest
      · exact decided_goes ih here loaded decoded final ends greedy special
    | stalled _ _ decoded final goesOn held ragged =>
      have settled := decided_stalled ih here loaded decoded final goesOn held ragged greedy special
      rw [here] at settled
      exact settled

end Rounds

/-! ## The generator -/

/-- What greedy decoding produces for a prompt, each token the one the model picks after the prompt
and all tokens before it. -/
def greedyTokens (cfg : Config X V L S) (params : Generate.SamplingParams) (ids : List Nat) : List Nat :=
  (greedyLoop cfg (untilEos params) ids params.maxNewTokens.toNat []).1

/-- For every prompt that is not empty, greedy `generate_stream` produces the greedy tokens and
yields the longest final text of them exactly if the greedy tokens can be decoded and, wherever the
text so far ends in a replacement character and a round is left, the model goes on with the token it
has just produced. -/
theorem generate_stream_autoregressive_iff (cfg : Config X V L S) (draw : Generate.SamplingParams → L → S → Nat × S)
    (tok : BPETokenizer) (params : Generate.SamplingParams) (prompt : Text) (gen : S) (greedy : params.greedy)
    (special : tok.eosId = some cfg.eosTokenId) (nonempty : tok.encode prompt false ≠ []) :
    ((∃ last part text, generateStream cfg.model ⟨cfg.argmax, draw⟩ tok params prompt gen = .ok last ∧
          last.produced = greedyTokens cfg params (tok.encode prompt false) ∧
          FinalPart tok last.produced part text ∧
          Generate.generate cfg.model ⟨cfg.argmax, draw⟩ tok params prompt gen = .ok text) ↔
        (∃ text, tok.decode (greedyTokens cfg params (tok.encode prompt false)) = some text) ∧
          ∀ output text, output <+: greedyTokens cfg params (tok.encode prompt false) →
            output.length < params.maxNewTokens.toNat → tok.decode output = some text → Ragged text →
            [nextToken cfg (tok.encode prompt false ++ output)] <:+ output) ∧
      ∀ last, generateStream cfg.model ⟨cfg.argmax, draw⟩ tok params prompt gen = .ok last →
        ∃ part text, FinalPart tok last.produced part text ∧
          Generate.generate cfg.model ⟨cfg.argmax, draw⟩ tok params prompt gen = .ok text := by
  have encoded : Generate.promptIds tok prompt = .ok (tok.encode prompt false) := if_neg nonempty
  have begins : generateStream cfg.model ⟨cfg.argmax, draw⟩ tok params prompt gen =
      generatorLoop cfg draw tok params
        (Generation.feed cfg.model { logits := [], cache := {}, gen } (tok.encode prompt false)) params.maxNewTokens.toNat := by
    rw [generateStream, encoded]
  have loaded : Loaded cfg (tok.encode prompt false ++ [])
      (Generation.feed cfg.model { logits := [], cache := {}, gen } (tok.encode prompt false)) := by
    rw [List.append_nil]
    exact @Loaded.feed _ _ _ _ cfg { logits := [], cache := {}, gen } [] _ (.empty cfg.model) nonempty
  have produced : (Generation.feed cfg.model { logits := [], cache := {}, gen } (tok.encode prompt false)).produced = [] :=
    produced_feed cfg.model _
  have said : ∀ last, generateStream cfg.model ⟨cfg.argmax, draw⟩ tok params prompt gen = .ok last →
      ∃ part text, FinalPart tok last.produced part text ∧
        Generate.generate cfg.model ⟨cfg.argmax, draw⟩ tok params prompt gen = .ok text := by
    intro last ran
    have initially : Said tok ({ logits := [], cache := {}, gen } : Generation V L S) := ⟨rfl, [], .nil⟩
    obtain ⟨-, part, finalPart⟩ := (loop_said (begins ▸ ran)).2 (initially.feed _ _)
    exact ⟨part, _, finalPart, by rw [Generate.generate, ran]; rfl⟩
  refine ⟨?_, said⟩
  have exactly := @decided _ _ _ _ cfg tok draw params _ greedy special params.maxNewTokens.toNat [] [] _ produced loaded
    (.inStep [] decode_nil Utf8.not_ragged_nil)
  rw [Agrees, ← begins, produced] at exactly
  refine Iff.trans ⟨?_, ?_⟩ (exactly.trans (and_congr_right fun _ => ?_))
  · rintro ⟨last, part, text, ran, same, -⟩
    exact ⟨last, ran, same⟩
  · rintro ⟨last, ran, same⟩
    obtain ⟨part, text, finalPart, yields⟩ := said last ran
    exact ⟨last, part, text, ran, same, finalPart, yields⟩
  · constructor
    · intro repeats output text within short
      exact repeats output text List.nil_prefix within (by simpa using short)
    · intro repeats output text _ within short
      exact repeats output text within (by simpa using short)

/-- After an `a` comes an `é`, in two tokens, and after that only `b`. -/
def accenting : Config Nat Nat Nat Unit :=
  { counting with
    model := { countingModel with lmHead := fun token => if token = 97 then 0xC3 else if token = 0xC3 then 0xA9 else 98 }
    eosTokenId := 256 }

def bytewise : BPETokenizer where
  classes := asciiClasses
  merges := .empty
  specialTokens := ⟨[(END_OF_TEXT, 256)], by decide⟩
  vocab := _
  rebuilt := rfl

def threeTokens : Generate.SamplingParams := { maxNewTokens := 3, temperature := 0 }

abbrev drawn : Sampling Nat Unit := ⟨accenting.argmax, fun _ row gen => (row, gen)⟩

theorem generate_stream_autoregressive_iff_plain :
    threeTokens.greedy = true ∧ bytewise.eosId = some accenting.eosTokenId ∧ bytewise.encode ['b'] false ≠ [] ∧
      (((∃ last part text, generateStream accenting.model drawn bytewise threeTokens ['b'] () = .ok last ∧
            last.produced = greedyTokens accenting threeTokens (bytewise.encode ['b'] false) ∧
            FinalPart bytewise last.produced part text ∧
            Generate.generate accenting.model drawn bytewise threeTokens ['b'] () = .ok text) ↔
          (∃ text, bytewise.decode (greedyTokens accenting threeTokens (bytewise.encode ['b'] false)) = some text) ∧
            ∀ output text, output <+: greedyTokens accenting threeTokens (bytewise.encode ['b'] false) →
              output.length < threeTokens.maxNewTokens.toNat → bytewise.decode output = some text → Ragged text →
              [nextToken accenting (bytewise.encode ['b'] false ++ output)] <:+ output) ∧
        ∀ last, generateStream accenting.model drawn bytewise threeTokens ['b'] () = .ok last →
          ∃ part text, FinalPart bytewise last.produced part text ∧
            Generate.generate accenting.model drawn bytewise threeTokens ['b'] () = .ok text) ∧
      Yields (generateStream accenting.model drawn bytewise threeTokens ['b'] ())
        (fun last => last.produced = [98, 98, 98] ∧ last.yielded = [['b'], ['b'], ['b']]) := by
  have greedy : threeTokens.greedy = true := by decide +kernel
  have nonempty : bytewise.encode ['b'] false ≠ [] := by decide +kernel
  exact ⟨greedy, rfl, nonempty, generate_stream_autoregressive_iff accenting _ bytewise threeTokens ['b'] () greedy rfl
    nonempty, by decide +kernel⟩

/-- Greedy decoding after an `a` is `éb`. -/
theorem generator_stalls_on_half_character :
    Yields (generateStream accenting.model drawn bytewise threeTokens ['a'] ())
        (fun last => last.produced = [0xC3, 0xC3, 0xC3] ∧ last.yielded = []) ∧
      bytewise.encode ['a'] false = [97] ∧ greedyTokens accenting threeTokens [97] = [0xC3, 0xA9, 98] ∧
      bytewise.decode [0xC3, 0xA9, 98] = some ['é', 'b'] := by
  decide +kernel

end Nanoserve.Verified
