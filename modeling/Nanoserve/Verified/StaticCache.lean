import Nanoserve.Engine.StaticCache
import Nanoserve.Verified.Causal

/-! # A forward pass over a slot

A slot holds the rows of the tokens written so far.
-/

namespace Nanoserve.Verified

open Engine Model List
open StaticKVCache (Slotted SlotExceeded protocol)

variable {X V L : Type} {model : NanoForCausalLM X V L}

theorem kv_write (pool : StaticCachePool V) (layer slot start : Nat) (rows : List V) (otherLayer position : Nat) :
    (pool.write layer slot start rows).kv otherLayer slot position =
      if otherLayer = layer ∧ start ≤ position then rows[position - start]?.getD (pool.kv otherLayer slot position)
      else pool.kv otherLayer slot position := by
  simp [StaticCachePool.write]

structure SameSlots (before after : StaticCachePool V) : Prop where
  maxSeqLen : after.maxSeqLen = before.maxSeqLen
  freeList : after.freeList = before.freeList
  live : after.live = before.live

theorem SameSlots.refl (pool : StaticCachePool V) : SameSlots pool pool := ⟨rfl, rfl, rfl⟩

theorem SameSlots.trans {first second third : StaticCachePool V} (left : SameSlots first second)
    (right : SameSlots second third) : SameSlots first third :=
  ⟨right.maxSeqLen.trans left.maxSeqLen, right.freeList.trans left.freeList, right.live.trans left.live⟩

structure Slotting (model : NanoForCausalLM X V L) (span : Span) (before : Slotted V) (count : Nat) (state : Slotted V) :
    Prop where
  books : SameSlots before.1 state.1
  slot : state.2.slot = before.2.slot
  resting : count = 0 → state.2.pos = span.start
  moved : count ≠ 0 → state.2.start = span.start ∧ state.2.pos = span.start + span.count
  visited : ∀ layer position, layer < count → position < span.start + span.count →
    state.1.kv layer before.2.slot position = kvAt model span.tokens layer position
  pending : ∀ layer position, count ≤ layer → layer < model.numHiddenLayers → position < span.start →
    state.1.kv layer before.2.slot position = kvAt model span.tokens layer position

namespace Slotting

variable {span : Span} {before state : Slotted V} {layer : Nat}

section

variable (slotting : Slotting model span before layer state)
include slotting

theorem kv_written (inModel : layer < model.numHiddenLayers)
    {position : Nat} (inside : position < span.start + span.count) :
    (state.1.write layer before.2.slot span.start (span.rows model layer)).kv layer before.2.slot position =
      kvAt model span.tokens layer position := by
  rw [kv_write]
  by_cases fed : span.start ≤ position
  · have inRows : position - span.start < (span.rows model layer).length := by
      rw [Span.rows, length_map, span.length_positions]
      omega
    rw [if_pos ⟨rfl, fed⟩, getElem?_eq_getElem inRows, Option.getD_some]
    simp only [Span.rows, Span.positions, getElem_map, getElem_range', Nat.one_mul]
    rw [Nat.add_sub_cancel' fed]
  · rw [if_neg (fun both => fed both.2)]
    exact slotting.pending layer position (Nat.le_refl _) inModel (Nat.lt_of_not_le fed)

theorem advance :
    state.2.advance layer span.count =
      { slot := before.2.slot, pos := span.start + span.count, start := span.start } := by
  have slot := slotting.slot
  obtain ⟨_, cache⟩ := state
  obtain ⟨_, pos, start⟩ := cache
  cases layer with
  | zero =>
    have resting := slotting.resting rfl
    simp only at slot resting
    rw [StaticKVCache.advance, if_pos rfl, slot, resting]
  | succ =>
    have moved := slotting.moved (Nat.succ_ne_zero _)
    simp only at slot moved
    rw [StaticKVCache.advance, if_neg (Nat.succ_ne_zero _), slot, moved.1, moved.2]

theorem update (inModel : layer < model.numHiddenLayers)
    (fits : span.start + span.count ≤ before.1.maxSeqLen) :
    ∃ next, StaticKVCache.update layer (span.rows model layer) state =
        .ok ((range (span.start + span.count)).map (kvAt model span.tokens layer), next) ∧
      Slotting model span before (layer + 1) next := by
  have length : (span.rows model layer).length = span.count := by simp [Span.rows, span.length_positions]
  have room : ¬(layer = 0 ∧ span.start + span.count > state.1.maxSeqLen) := by
    rw [slotting.books.maxSeqLen]
    omega
  refine ⟨(state.1.write layer before.2.slot span.start (span.rows model layer),
    { slot := before.2.slot, pos := span.start + span.count, start := span.start }), ?_, ?_⟩
  · simp only [StaticKVCache.update, length, slotting.advance, if_neg room]
    congr 2
    apply map_congr_left
    intro position mem
    exact slotting.kv_written inModel (mem_range.mp mem)
  · refine ⟨slotting.books.trans ⟨rfl, rfl, rfl⟩, rfl, fun zero => absurd zero (Nat.succ_ne_zero _),
      fun _ => ⟨rfl, rfl⟩, ?_, ?_⟩
    · intro other position below inside
      by_cases here : other = layer
      · subst here
        exact slotting.kv_written inModel inside
      · rw [kv_write, if_neg (fun both => here both.1)]
        exact slotting.visited other position (by omega) inside
    · intro other position above otherInModel early
      rw [kv_write, if_neg (fun both => by omega)]
      exact slotting.pending other position (by omega) otherInModel early

theorem serves (inModel : layer < model.numHiddenLayers)
    (fits : span.start + span.count ≤ before.1.maxSeqLen) :
    ∃ next, Serves model (protocol V) none [span] layer state next ∧
      Slotting model span before (layer + 1) next := by
  obtain ⟨next, updated, continued⟩ := slotting.update inModel fits
  have served : (protocol V).update layer ([span].map (Span.rows model layer)) state =
      .ok ([(range (span.start + span.count)).map (kvAt model span.tokens layer)], next) := by
    simp only [protocol, map_cons, headD_cons, updated]
  exact ⟨next, .single served, continued⟩

end

end Slotting

structure SlotHolds (model : NanoForCausalLM X V L) (tokens : List Nat) (state : Slotted V) : Prop where
  pos : state.2.pos = tokens.length
  rows : ∀ layer position, layer < model.numHiddenLayers → position < tokens.length →
    state.1.kv layer state.2.slot position = kvAt model tokens layer position

theorem SlotHolds.empty (model : NanoForCausalLM X V L) (pool : StaticCachePool V) (slot : Nat) :
    SlotHolds model [] (pool, { slot }) :=
  ⟨rfl, fun _ _ _ inside => absurd inside (Nat.not_lt_zero _)⟩

theorem SlotHolds.forward {tokens more : List Nat} {state : Slotted V} (holds : SlotHolds model tokens state)
    (fits : tokens.length + more.length ≤ state.1.maxSeqLen) :
    ∃ next, model.forward (protocol V) [more] none none state =
        .ok ([(range' tokens.length more.length).map (logitsAt model (tokens ++ more))], next) ∧
      SlotHolds model (tokens ++ more) next ∧ SameSlots state.1 next.1 ∧ next.2.slot = state.2.slot := by
  let span : Span := ⟨tokens ++ more, tokens.length⟩
  have count : span.count = more.length := by simp [span, Span.count]
  have inputs : span.inputs = more := by simp [span, Span.inputs]
  have initially : Slotting model span state 0 state := by
    refine ⟨.refl _, rfl, fun _ => holds.pos, fun none => absurd rfl none, fun _ _ below => absurd below (Nat.not_lt_zero _),
      fun layer position _ inModel early => ?_⟩
    rw [holds.rows layer position inModel early]
    exact (kvAt_append more layer early).symm
  obtain ⟨next, ran, finished⟩ := forward_spec
    (fun layer middle inModel slotting =>
      Slotting.serves slotting inModel (by rw [count]; exact fits)) initially
  have moved := finished.moved (Nat.ne_of_gt model.layered)
  refine ⟨next, ?_, ⟨?_, ?_⟩, finished.books, finished.slot⟩
  · simp only [map_cons, map_nil, inputs, Span.positions, count] at ran
    have position : (protocol V).len state = tokens.length := holds.pos
    rw [forward_continues, position, ← ran]
  · rw [moved.2, count, length_append]
  · intro layer position inModel inside
    rw [finished.slot]
    refine finished.visited layer position inModel ?_
    rw [count]
    rwa [length_append] at inside

theorem SlotHolds.forward_exceeded {tokens more : List Nat} {state : Slotted V} (holds : SlotHolds model tokens state)
    (exceeds : state.1.maxSeqLen < tokens.length + more.length) :
    ∃ raised : SlotExceeded V, model.forward (protocol V) [more] none none state = .error raised ∧
      raised.left.1 = state.1 ∧ raised.left.2.slot = state.2.slot := by
  have advanced : state.2.advance 0 more.length =
      { state.2 with start := tokens.length, pos := tokens.length + more.length } := by
    rw [StaticKVCache.advance, if_pos rfl, holds.pos]
  have updated : StaticKVCache.update 0 (zipWith (model.kvProj 0) (more.map model.embedTokens)
      (range' tokens.length more.length)) state =
        .error ⟨(state.1, { state.2 with start := tokens.length, pos := tokens.length + more.length })⟩ := by
    have length : (zipWith (model.kvProj 0) (more.map model.embedTokens)
      (range' tokens.length more.length)).length = more.length := by simp
    simp only [StaticKVCache.update, length, advanced]
    rw [if_pos ⟨trivial, exceeds⟩]
  refine ⟨⟨(state.1, { state.2 with start := tokens.length, pos := tokens.length + more.length })⟩, ?_, rfl, rfl⟩
  have position : (protocol V).len state = tokens.length := holds.pos
  rw [forward_continues, position]
  apply forward_raised
  simp only [protocol, map_cons, map_nil, zipWith_cons_cons, headD_cons, updated]

end Nanoserve.Verified
