import Nanoserve.Engine.Baseline
import Nanoserve.Verified.Causal
import Nanoserve.Verified.Isolation

/-! # Greedy decoding

`greedyLoop` is greedy decoding as a function of the prompt alone.
-/

namespace Nanoserve.Verified

open Engine Model List
open DynamicCache (protocol)

variable {X V L S : Type} {cfg : Config X V L S}

/-- The greedy choice after `tokens`. -/
def nextToken (cfg : Config X V L S) (tokens : List Nat) : Nat :=
  cfg.argmax (logitsAt cfg.model tokens (tokens.length - 1))

/-- At most `remaining` more tokens behind `output`. -/
def greedyLoop (cfg : Config X V L S) (params : SamplingParams) (prompt : List Nat) :
    Nat → List Nat → List Nat × FinishReason
  | 0, output => (output, .length)
  | remaining + 1, output =>
    if nextToken cfg (prompt ++ output) = cfg.eosTokenId ∧ ¬params.ignoreEos then (output, .eos)
    else greedyLoop cfg params prompt remaining (output ++ [nextToken cfg (prompt ++ output)])

theorem greedyLoop_extends (params : SamplingParams) (prompt : List Nat) (remaining : Nat) (output : List Nat) :
    output <+: (greedyLoop cfg params prompt remaining output).1 := by
  induction remaining generalizing output with
  | zero => exact prefix_rfl
  | succ _ ih =>
    rw [greedyLoop]
    split
    · exact prefix_rfl
    · exact (prefix_append _ _).trans (ih _)

theorem greedyLoop_congr {first second : SamplingParams} (same : first.ignoreEos = second.ignoreEos) (prompt : List Nat)
    (remaining : Nat) (output : List Nat) :
    greedyLoop cfg first prompt remaining output = greedyLoop cfg second prompt remaining output := by
  induction remaining generalizing output with
  | zero => rfl
  | succ _ ih => simp only [greedyLoop, same, ih]

theorem greedyLoop_shift (params : SamplingParams) (prompt moved : List Nat) (remaining : Nat) (output : List Nat) :
    (greedyLoop cfg params prompt remaining (moved ++ output)).1 =
      moved ++ (greedyLoop cfg params (prompt ++ moved) remaining output).1 := by
  induction remaining generalizing output with
  | zero => rfl
  | succ _ ih =>
    simp only [greedyLoop, append_assoc]
    split
    · rfl
    · rw [ih]

theorem greedyLoop_through {params : SamplingParams} {prompt : List Nat} {remaining : Nat} {output more : List Nat}
    (part : output ++ more <+: (greedyLoop cfg params prompt remaining output).1) :
    greedyLoop cfg params prompt remaining output =
      greedyLoop cfg params prompt (remaining - more.length) (output ++ more) := by
  induction more generalizing remaining output with
  | nil => simp
  | cons token more ih =>
    have longer : ¬output ++ token :: more <+: output := by
      intro short
      have lengths := short.length_le
      rw [length_append, length_cons] at lengths
      omega
    cases remaining with
    | zero => exact absurd part longer
    | succ remaining =>
      rw [greedyLoop] at part ⊢
      split at part
      · exact absurd part longer
      · -- The first token of the part is the one the loop picks.
        rename_i goesOn
        have picked := @greedyLoop_extends X V L S cfg params prompt remaining
          (output ++ [nextToken cfg (prompt ++ output)])
        have one : output ++ [token] <+: output ++ token :: more := by simp
        have same := (prefix_of_prefix_length_le (one.trans part) picked (by simp)).eq_of_length (by simp)
        rw [if_neg goesOn, ← same]
        rw [← same] at part
        have rest := @ih remaining (output ++ [token]) (by grind)
        simpa using rest

theorem greedyLoop_resume {params : SamplingParams} {prompt resume : List Nat} {budget : Nat}
    (part : resume <+: (greedyLoop cfg params prompt budget []).1) :
    resume ++ (greedyLoop cfg params (prompt ++ resume) (budget - resume.length) []).1 =
      (greedyLoop cfg params prompt budget []).1 := by
  have through := @greedyLoop_through X V L S cfg params prompt budget [] resume part
  rw [through, nil_append, ← greedyLoop_shift, append_nil]

theorem len_eq {cache : DynamicCache V} (single : Single cache) : cache.len = (appended cache 0).length := by
  obtain ⟨keys⟩ := cache
  cases keys with
  | nil => rfl
  | cons first =>
    cases first with
    | none => rfl
    | some =>
      rfl

structure Growing (model : NanoForCausalLM X V L) (span : Span) (count : Nat) (cache : DynamicCache V) : Prop where
  single : Single cache
  visited : ∀ layer, layer < count →
    appended cache layer = (range (span.start + span.count)).map (kvAt model span.tokens layer)
  pending : ∀ layer, count ≤ layer → layer < model.numHiddenLayers →
    appended cache layer = (range span.start).map (kvAt model span.tokens layer)

theorem Growing.serves {ε : Type} {model : NanoForCausalLM X V L} {span : Span} {layer : Nat} {cache : DynamicCache V}
    (growing : Growing model span layer cache) (inModel : layer < model.numHiddenLayers) :
    ∃ next, Serves model (protocol ε V) none [span] layer cache next ∧
      Growing model span (layer + 1) next := by
  have updated := fun other => keys_update growing.single layer other (span.rows model layer)
  have rows : appended cache layer ++ span.rows model layer =
      (range (span.start + span.count)).map (kvAt model span.tokens layer) := by
    rw [growing.pending layer (Nat.le_refl _) inModel, span.append_rows]
  have served : (protocol ε V).update layer ([span].map (Span.rows model layer)) cache =
      .ok ([(range (span.start + span.count)).map (kvAt model span.tokens layer)],
        (cache.update layer [span.rows model layer]).2) := by
    rw [← rows, ← (updated 0).1]
    rfl
  refine ⟨(cache.update layer [span.rows model layer]).2, .single served, ?_, ?_, ?_⟩
  · intro other stored placed
    rw [(updated other).2] at placed
    split at placed
    · exact ⟨_, (Option.some.inj placed).symm⟩
    · exact growing.single other stored placed
  · intro other below
    simp only [appended, (updated other).2]
    by_cases here : other = layer
    · subst here
      rw [if_pos rfl, ← rows]
      rfl
    · rw [if_neg here]
      exact growing.visited other (by omega)
  · intro other above otherInModel
    simp only [appended, (updated other).2]
    rw [if_neg (by omega)]
    exact growing.pending other (by omega) otherInModel

structure Holds (model : NanoForCausalLM X V L) (tokens : List Nat) (cache : DynamicCache V) : Prop where
  single : Single cache
  rows : ∀ layer, layer < model.numHiddenLayers →
    appended cache layer = (range tokens.length).map (kvAt model tokens layer)

theorem Holds.empty (model : NanoForCausalLM X V L) : Holds model [] ({} : DynamicCache V) :=
  ⟨.empty, fun layer _ => by simp [appended]⟩

theorem Holds.forward {ε : Type} {model : NanoForCausalLM X V L} {tokens more : List Nat} {cache : DynamicCache V}
    (holds : Holds model tokens cache) :
    ∃ next, model.forward (protocol ε V) [more] none none cache =
        .ok ([(range' tokens.length more.length).map (logitsAt model (tokens ++ more))], next) ∧
      Holds model (tokens ++ more) next := by
  let span : Span := ⟨tokens ++ more, tokens.length⟩
  have count : span.count = more.length := by simp [span, Span.count]
  have initially : Growing model span 0 cache := by
    refine ⟨holds.single, fun layer below => absurd below (Nat.not_lt_zero _), fun layer _ inModel => ?_⟩
    rw [holds.rows layer inModel]
    apply map_congr_left
    intro position mem
    exact (kvAt_append more layer (mem_range.mp mem)).symm
  obtain ⟨next, ran, finished⟩ := forward_spec
    (fun layer state inModel growing => @Growing.serves X V L ε model span layer state growing inModel) initially
  refine ⟨next, ?_, finished.single, fun layer inModel => ?_⟩
  · have start : cache.len = tokens.length := by
      rw [len_eq holds.single, holds.rows 0 model.layered, length_map, length_range]
    have inputs : span.inputs = more := by simp [span, Span.inputs]
    simp only [map_cons, map_nil, inputs, Span.positions, count] at ran
    rw [← ran]
    simp only [NanoForCausalLM.forward, map_cons, map_nil]
    have lenEq : (protocol ε V).len cache = tokens.length := start
    rw [lenEq]
  · rw [finished.visited layer inModel, count]
    simp [span]

theorem sample_greedy {params : SamplingParams} (greedy : params.greedy) (logits : L) (rng : S) :
    ContinuousBatchingEngine.sample cfg params logits rng = (cfg.argmax logits, rng) := by
  rw [ContinuousBatchingEngine.sample, if_pos greedy]

theorem getLast?_range'_map {start count : Nat} {α : Type} (f : Nat → α) (pos : 0 < count) :
    ((range' start count).map f).getLast? = some (f (start + count - 1)) := by
  obtain ⟨_, rfl⟩ := Nat.exists_eq_succ_of_ne_zero (Nat.ne_of_gt pos)
  rw [range'_concat, map_append, getLast?_append]
  simp

-- By induction on the remaining iterations: the cache holds the context so far,
-- and the logits at hand are those of its last token.
theorem generate_spec {ε : Type} (remaining : Nat) {req : Request} {row : List L} {cache : DynamicCache V} (rng : S)
    (greedy : req.params.greedy) (unfinished : req.finishReason = none)
    (holds : Holds cfg.model (req.promptTokenIds ++ req.outputTokenIds) cache)
    (last : row.getLast? = some (logitsAt cfg.model (req.promptTokenIds ++ req.outputTokenIds)
      ((req.promptTokenIds ++ req.outputTokenIds).length - 1))) :
    ∃ ended next, BaselineEngine.generate cfg (protocol ε V) req [row] cache rng remaining =
        .ok (ended, next, rng) ∧
      (ended.outputTokenIds, ended.finishReason.getD .length) =
        greedyLoop cfg req.params req.promptTokenIds remaining req.outputTokenIds := by
  induction remaining generalizing req row cache with
  | zero => exact ⟨req, cache, rfl, by simp [greedyLoop, unfinished]⟩
  | succ _ ih =>
    have lastRow : BaselineEngine.lastRow [row] = some (logitsAt cfg.model
        (req.promptTokenIds ++ req.outputTokenIds)
        ((req.promptTokenIds ++ req.outputTokenIds).length - 1)) := last
    have chosen : cfg.argmax (logitsAt cfg.model (req.promptTokenIds ++ req.outputTokenIds)
        ((req.promptTokenIds ++ req.outputTokenIds).length - 1)) =
      nextToken cfg (req.promptTokenIds ++ req.outputTokenIds) := rfl
    simp only [BaselineEngine.generate, lastRow, sample_greedy greedy, greedyLoop, chosen]
    by_cases stops : nextToken cfg (req.promptTokenIds ++ req.outputTokenIds) = cfg.eosTokenId ∧
        ¬req.params.ignoreEos
    · rw [if_pos stops, if_pos stops]
      exact ⟨_, _, rfl, rfl⟩
    · rw [if_neg stops, if_neg stops]
      obtain ⟨next, ran, nextHolds⟩ := @Holds.forward X V L ε cfg.model _
        [nextToken cfg (req.promptTokenIds ++ req.outputTokenIds)] cache holds
      simp only [ran]
      rw [append_assoc] at nextHolds
      refine ih greedy unfinished nextHolds ?_
      rw [getLast?_range'_map _ (by simp)]
      simp [append_assoc]

theorem baseline_spec (req : Request) (rng : S) (greedy : req.params.greedy)
    (ne : req.promptTokenIds ≠ []) (untouched : req.outputTokenIds = [])
    (unfinished : req.finishReason = none) :
    ∃ ended cache, BaselineEngine.step cfg req rng = .ok (ended, cache, rng) ∧
      ended.outputTokenIds =
        (greedyLoop cfg req.params req.promptTokenIds req.params.maxTokens []).1 ∧
      ended.finishReason =
        some (greedyLoop cfg req.params req.promptTokenIds req.params.maxTokens []).2 := by
  obtain ⟨prefilled, ran, holds⟩ :=
    @Holds.forward X V L Empty cfg.model [] req.promptTokenIds {} (.empty cfg.model)
  have length := length_pos_iff.mpr ne
  rw [nil_append] at holds ran
  obtain ⟨ended, next, generated, result⟩ := @generate_spec X V L S cfg Empty req.params.maxTokens req
    ((range' ([] : List Nat).length req.promptTokenIds.length).map (logitsAt cfg.model req.promptTokenIds))
    prefilled rng greedy unfinished (by grind) (by
      rw [untouched, append_nil, getLast?_range'_map _ length]
      simp)
  rw [untouched] at result
  simp only [BaselineEngine.step, BaselineEngine.runRequest, ran, generated]
  refine ⟨_, next, rfl, ?_, ?_⟩
  · rw [← result]
    split <;> rfl
  · rw [← result]
    split
    case isTrue none => simp [none]
    case isFalse some =>
      obtain ⟨_, reasonEq⟩ := Option.ne_none_iff_exists'.mp some
      simp [reasonEq]

end Nanoserve.Verified
