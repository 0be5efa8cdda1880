import Nanoserve.Model.Transformer

/-! # What the transformer computes

`hidden`, `kvAt` and `logitsAt` say what a causal transformer means for one sequence of tokens,
without any cache.
-/

namespace Nanoserve.Verified

open Model List
open NanoForCausalLM (attend forward)

variable {X V L : Type}

/-- The residual stream at `position`, before layer `layer`. -/
def hidden (model : NanoForCausalLM X V L) (tokens : List Nat) : Nat → Nat → X
  | 0, position => model.embedTokens (tokens.getD position 0)
  | layer + 1, position =>
    model.decoderLayer layer (hidden model tokens layer position) position
      ((range (position + 1)).map fun key => model.kvProj layer (hidden model tokens layer key) key)

/-- The keys and values of one position in one layer. -/
def kvAt (model : NanoForCausalLM X V L) (tokens : List Nat) (layer position : Nat) : V :=
  model.kvProj layer (hidden model tokens layer position) position

def logitsAt (model : NanoForCausalLM X V L) (tokens : List Nat) (position : Nat) : L :=
  model.lmHead (hidden model tokens model.numHiddenLayers position)

variable {model : NanoForCausalLM X V L}
variable {position : Nat} {ε σ : Type} {cache : KVCache ε σ V} {mask : Option (List (List Bool))} {batch : List Span}
  {state : σ}

theorem hidden_succ (tokens : List Nat) (layer position : Nat) :
    hidden model tokens (layer + 1) position =
      model.decoderLayer layer (hidden model tokens layer position) position
        ((range (position + 1)).map (kvAt model tokens layer)) := rfl

theorem hidden_congr {first second : List Nat} (layer : Nat)
    (agree : ∀ key, key ≤ position → first.getD key 0 = second.getD key 0) :
    hidden model first layer position = hidden model second layer position := by
  induction layer generalizing position with
  | zero =>
    simp only [hidden]
    rw [agree position (Nat.le_refl _)]
  | succ layer ih =>
    have rows : (range (position + 1)).map (kvAt model first layer) =
        (range (position + 1)).map (kvAt model second layer) := by
      apply map_congr_left
      intro key mem
      have below : key ≤ position := Nat.le_of_lt_succ (mem_range.mp mem)
      rw [kvAt, kvAt, ih fun other le => agree other (Nat.le_trans le below)]
    rw [hidden_succ, hidden_succ, rows, ih agree]

theorem hidden_append {tokens : List Nat} (more : List Nat) (layer : Nat) (lt : position < tokens.length) :
    hidden model (tokens ++ more) layer position = hidden model tokens layer position := by
  apply hidden_congr
  intro key le
  rw [getD_append _ _ _ _ (Nat.lt_of_le_of_lt le lt)]

theorem kvAt_congr {first second : List Nat} (layer : Nat)
    (agree : ∀ key, key ≤ position → first.getD key 0 = second.getD key 0) :
    kvAt model first layer position = kvAt model second layer position := by
  rw [kvAt, kvAt, hidden_congr layer agree]

theorem kvAt_append {tokens : List Nat} (more : List Nat) (layer : Nat) (lt : position < tokens.length) :
    kvAt model (tokens ++ more) layer position = kvAt model tokens layer position := by
  rw [kvAt, kvAt, hidden_append more layer lt]

theorem admitted_cutoff (bound : Nat) (rows : List V) :
    admitted ((range rows.length).map fun key => decide (key < bound)) rows = rows.take bound := by
  -- Counting from `first` on, so that the tail of the list is an instance again.
  have shifted : ∀ first, admitted ((range' first rows.length).map fun key => decide (key < bound)) rows =
      rows.take (bound - first) := by
    induction rows with
    | nil => intro first; simp [admitted]
    | cons _ _ ih =>
      intro first
      have tail := ih (first + 1)
      simp only [admitted] at tail
      by_cases inside : first < bound
      · have more : bound - first = bound - (first + 1) + 1 := by omega
        simp [admitted, range'_succ, inside, more, tail]
      · have none : bound - first = 0 := by omega
        have noneLater : bound - (first + 1) = 0 := by omega
        simp only [noneLater, take_zero] at tail
        simp [admitted, range'_succ, inside, none, tail]
  rw [range_eq_range', shifted 0, Nat.sub_zero]

theorem admitted_causal {start count query : Nat} (row : Nat → V) (lt : query < count) :
    admitted (keyMask none count (start + count) query) ((range (start + count)).map row) =
      (range (start + query + 1)).map row := by
  have mask : keyMask none count (start + count) query =
      (range ((range (start + count)).map row).length).map fun key => decide (key < start + query + 1) := by
    simp only [keyMask, length_map, length_range]
    by_cases several : count > 1
    · rw [if_pos several]
      by_cases whole : count = start + count
      · have fresh : start = 0 := by omega
        subst fresh
        rw [if_pos whole]
        exact map_congr_left fun key _ => decide_eq_decide.mpr (by omega)
      · rw [if_neg whole]
        simp only [offsetCausalMask]
        rw [getD_eq_getElem _ _ (by grind), getElem_map, getElem_range]
        exact map_congr_left fun key _ => decide_eq_decide.mpr (by omega)
    · rw [if_neg several]
      have single : count = 1 ∧ query = 0 := by omega
      obtain ⟨rfl, rfl⟩ := single
      apply ext_getElem (by simp)
      intro key inMask inRange
      simp at inMask
      simp [inMask]
  rw [mask, admitted_cutoff, ← map_take, take_range]
  congr 2
  omega

/-! ## The forward pass -/

/-- One sequence of a batch: its context, of which everything from `start` on is fed. -/
structure Span where
  tokens : List Nat
  start : Nat

namespace Span

def count (span : Span) : Nat := span.tokens.length - span.start

def inputs (span : Span) : List Nat := span.tokens.drop span.start

def positions (span : Span) : List Nat := range' span.start span.count

theorem length_positions (span : Span) : span.positions.length = span.count := by simp [positions]

/-- The rows of one layer at the fed positions. -/
def rows (model : NanoForCausalLM X V L) (layer : Nat) (span : Span) : List V :=
  span.positions.map (kvAt model span.tokens layer)

/-- The rows of one layer a query may see. -/
def context (model : NanoForCausalLM X V L) (layer : Nat) (span : Span) (query : Nat) : List V :=
  (range (span.start + query + 1)).map (kvAt model span.tokens layer)

theorem start_add_count {span : Span} (le : span.start ≤ span.tokens.length) :
    span.start + span.count = span.tokens.length := by
  simp only [count]
  omega

theorem append_rows (model : NanoForCausalLM X V L) (layer : Nat) (span : Span) :
    (range span.start).map (kvAt model span.tokens layer) ++ span.rows model layer =
      (range (span.start + span.count)).map (kvAt model span.tokens layer) := by
  have split := @range'_append_1 0 span.start span.count
  rw [Nat.zero_add] at split
  rw [rows, positions, ← map_append, range_eq_range', range_eq_range', split]

theorem inputs_map (span : Span) {α : Type} (f : Nat → α) :
    span.inputs.map f = span.positions.map fun position => f (span.tokens.getD position 0) := by
  apply ext_getElem
  · simp [inputs, positions, count]
  · intro index inInputs inPositions
    simp only [inputs, length_map, length_drop] at inInputs
    simp only [inputs, positions, getElem_map, getElem_drop, getElem_range']
    rw [getD_eq_getElem _ _ (by omega)]
    simp

end Span

/-- In layer `layer` the cache takes the batch's new rows and answers so that every query sees its
context. -/
def Serves {ε σ : Type} (model : NanoForCausalLM X V L) (cache : KVCache ε σ V) (mask : Option (List (List Bool)))
    (batch : List Span) (layer : Nat) (before after : σ) : Prop :=
  ∃ rows, cache.update layer (batch.map (Span.rows model layer)) before = .ok (rows, after) ∧
    ∀ (index : Nat) span, batch[index]? = some span → ∀ query, query < span.count →
      admitted (keyMask (mask.map (·.getD index [])) span.count (rows.getD index []).length query)
        (rows.getD index []) = span.context model layer query

/-- A single sequence that is handed back its rows from position 0 on needs no mask. -/
theorem Serves.single {ε σ : Type} {cache : KVCache ε σ V} {span : Span} {layer : Nat} {before after : σ}
    (updated : cache.update layer [span.rows model layer] before =
      .ok ([(range (span.start + span.count)).map (kvAt model span.tokens layer)], after)) :
    Serves model cache none [span] layer before after := by
  refine ⟨_, updated, ?_⟩
  intro index other placed query lt
  cases index with
  | succ => simp at placed
  | zero =>
    simp only [getElem?_cons_zero, Option.some.injEq] at placed
    subst placed
    simp only [getD_cons_zero, length_map, length_range, Option.map_none]
    exact admitted_causal (kvAt model span.tokens layer) lt

theorem attend_spec {mask : Option (List Bool)} {rows : List V} {layer : Nat} {span : Span}
    (sees : ∀ query, query < span.count →
      admitted (keyMask mask span.count rows.length query) rows = span.context model layer query) :
    model.attend layer mask rows (span.positions.map (hidden model span.tokens layer)) span.positions =
      span.positions.map (hidden model span.tokens (layer + 1)) := by
  apply ext_getElem
  · simp [attend]
  · intro query inRows inPositions
    have inSpan : query < span.positions.length := by simpa using inPositions
    have lt : query < span.count := by simpa [span.length_positions] using inSpan
    have position : span.positions[query] = span.start + query := by simp [Span.positions]
    simp only [attend, getElem_mapIdx, getElem_zip, getElem_map, length_map,
      span.length_positions, position]
    rw [sees query lt, hidden_succ]
    rfl

theorem layerForward_spec {layer : Nat} {before after : σ} (serves : Serves model cache mask batch layer before after) :
    model.layerForward cache mask (batch.map Span.positions) layer
        (batch.map fun span => span.positions.map (hidden model span.tokens layer)) before =
      .ok (batch.map fun span => span.positions.map (hidden model span.tokens (layer + 1)), after) := by
  obtain ⟨_, updated, sees⟩ := serves
  have projected : zipWith (zipWith (model.kvProj layer))
      (batch.map fun span => span.positions.map (hidden model span.tokens layer)) (batch.map Span.positions) =
        batch.map (Span.rows model layer) := by
    rw [zipWith_map, zipWith_self]
    apply map_congr_left
    intro span _
    rw [zipWith_map_left, zipWith_self]
    rfl
  simp only [NanoForCausalLM.layerForward, projected, updated]
  congr 2
  apply ext_getElem
  · simp
  · intro index inRows inBatch
    have inList : index < batch.length := by simpa using inBatch
    have inPositions : index < (batch.map Span.positions).length := by simpa using inList
    simp only [getElem_mapIdx, getElem_map]
    rw [getD_eq_getElem _ _ inPositions, getElem_map]
    exact attend_spec (sees index _ (getElem?_eq_getElem inList))

theorem layersForward_spec {Inv : Nat → σ → Prop} {count : Nat}
    (serves : ∀ layer state, layer < count → Inv layer state →
      ∃ next, Serves model cache mask batch layer state next ∧ Inv (layer + 1) next)
    (initially : Inv 0 state) :
    ∃ last, model.layersForward cache mask (batch.map Span.positions)
        (batch.map fun span => span.positions.map (hidden model span.tokens 0)) state count =
      .ok (batch.map fun span => span.positions.map (hidden model span.tokens count), last) ∧ Inv count last := by
  induction count with
  | zero => exact ⟨state, rfl, initially⟩
  | succ count ih =>
    obtain ⟨middle, ran, held⟩ :=
      ih fun layer state below => serves layer state (Nat.lt_succ_of_lt below)
    obtain ⟨last, served, holds⟩ := serves count middle (Nat.lt_succ_self _) held
    refine ⟨last, ?_, holds⟩
    simp only [NanoForCausalLM.layersForward, ran]
    exact layerForward_spec served

theorem forward_spec {Inv : Nat → σ → Prop}
    (serves : ∀ layer state, layer < model.numHiddenLayers → Inv layer state →
      ∃ next, Serves model cache mask batch layer state next ∧ Inv (layer + 1) next)
    (initially : Inv 0 state) :
    ∃ last, model.forward cache (batch.map Span.inputs) (some (batch.map Span.positions)) mask state =
      .ok (batch.map fun span => span.positions.map (logitsAt model span.tokens), last) ∧
        Inv model.numHiddenLayers last := by
  obtain ⟨last, ran, holds⟩ := layersForward_spec serves initially
  refine ⟨last, ?_, holds⟩
  have embedded : (batch.map Span.inputs).map (fun row => row.map model.embedTokens) =
      batch.map fun span => span.positions.map (hidden model span.tokens 0) := by
    rw [map_map]
    apply map_congr_left
    intro span _
    exact span.inputs_map model.embedTokens
  simp only [forward, embedded, ran, map_map]
  congr 2
  apply map_congr_left
  intro span _
  simp only [Function.comp_apply, map_map]
  rfl

theorem forward_continues (cache : KVCache ε σ V) (inputs : List Nat) (state : σ) :
    model.forward cache [inputs] none none state =
      model.forward cache [inputs] (some [range' (cache.len state) inputs.length]) none state := rfl

/-! ## Whatever the rows hold

That a pass returns at all has nothing to do with what is stored. -/

theorem layersForward_total {ε σ : Type} {cache : KVCache ε σ V} (mask : Option (List (List Bool)))
    {positions : List (List Nat)} {x : List (List X)} {Inv : Nat → σ → Prop} {count : Nat} {state : σ}
    (shape : x.map length = positions.map length)
    (prog : ∀ layer state k, layer < count → Inv layer state → k.map length = positions.map length →
      ∃ rows next, cache.update layer k state = .ok (rows, next) ∧ Inv (layer + 1) next) (initially : Inv 0 state) :
    ∃ y last, model.layersForward cache mask positions x state count = .ok (y, last) ∧
      y.map length = positions.map length ∧ Inv count last := by
  induction count with
  | zero => exact ⟨x, state, rfl, shape, initially⟩
  | succ count ih =>
    obtain ⟨y, middle, ran, yShape, held⟩ :=
      ih fun layer state k below => prog layer state k (Nat.lt_succ_of_lt below)
    have lengths : ∀ (index : Nat) (inRows : index < y.length) (inPositions : index < positions.length),
        y[index].length = positions[index].length := by
      intro index inRows inPositions
      simpa [inRows, inPositions] using congrArg (·[index]?) yShape
    have counts : y.length = positions.length := by simpa using congrArg List.length yShape
    have kShape : (zipWith (zipWith (model.kvProj count)) y positions).map length =
        positions.map length := by
      apply ext_getElem (by grind)
      intro index inLeft inRight
      have inPositions : index < positions.length := by simpa using inRight
      simp [lengths index (by omega) inPositions]
    obtain ⟨rows, last, updated, holds⟩ := prog count middle _ (Nat.lt_succ_self _) held kShape
    simp only [NanoForCausalLM.layersForward, ran, NanoForCausalLM.layerForward, updated]
    refine ⟨_, _, rfl, ?_, holds⟩
    apply ext_getElem (by grind)
    intro index inLeft inRight
    have inPositions : index < positions.length := by simpa using inRight
    simp [attend, inPositions, lengths index (by omega) inPositions]

theorem forward_total {ε σ : Type} {cache : KVCache ε σ V} (mask : Option (List (List Bool)))
    {inputs positions : List (List Nat)} {Inv : Nat → σ → Prop} {state : σ}
    (shape : inputs.map length = positions.map length)
    (prog : ∀ layer state k, layer < model.numHiddenLayers → Inv layer state →
      k.map length = positions.map length →
      ∃ rows next, cache.update layer k state = .ok (rows, next) ∧ Inv (layer + 1) next) (initially : Inv 0 state) :
    ∃ logits last, model.forward cache inputs (some positions) mask state = .ok (logits, last) ∧
      logits.map length = positions.map length ∧ Inv model.numHiddenLayers last := by
  have embedded : (inputs.map fun row => row.map model.embedTokens).map length = positions.map length := by
    rw [← shape, map_map]
    simp
  obtain ⟨_, last, ran, hiddenShape, holds⟩ :=
    @layersForward_total X V L model _ _ _ mask _ _ _ _ _ embedded prog initially
  simp only [forward, ran]
  refine ⟨_, _, rfl, ?_, holds⟩
  rw [← hiddenShape, map_map]
  simp

theorem layersForward_raised {positions : List (List Nat)} {x : List (List X)} {raised : ε}
    (first : model.layerForward cache mask positions 0 x state = .error raised) (count : Nat) :
    model.layersForward cache mask positions x state (count + 1) = .error raised := by
  induction count with
  | zero => exact first
  | succ _ ih =>
    rw [NanoForCausalLM.layersForward]
    simp only [ih]

theorem forward_raised {inputs positions : List (List Nat)} {raised : ε}
    (first : cache.update 0 (zipWith (zipWith (model.kvProj 0)) (inputs.map fun row => row.map model.embedTokens) positions)
      state = .error raised) :
    model.forward cache inputs (some positions) none state = .error raised := by
  obtain ⟨count, layers⟩ := Nat.exists_eq_succ_of_ne_zero (Nat.ne_of_gt model.layered)
  have layer : model.layerForward cache none positions 0 (inputs.map fun row => row.map model.embedTokens) state =
      .error raised := by
    simp only [NanoForCausalLM.layerForward, first]
  simp only [forward, layers, layersForward_raised layer count]

end Nanoserve.Verified
