import Nanoserve.Verified.Greedy
import Nanoserve.Verified.Prefill
import Nanoserve.Verified.StaticCache

/-! # A sequence in chunks

A cache that holds the rows of a context lets a pass go on from there.
-/

namespace Nanoserve.Verified

open Engine Model Lib List
open PagedKVCache (Paged protocol)
open StaticKVCache (Slotted)

variable {ε σ X V L : Type} {model : NanoForCausalLM X V L}

structure Caching (model : NanoForCausalLM X V L) (cache : KVCache ε σ V) (fits : Nat → Prop)
    (Holds : List Nat → σ → Prop) (Raises : ε → Prop) : Prop where
  passes : ∀ {tokens state} more, Holds tokens state → fits (tokens.length + more.length) →
    ∃ next, model.forward cache [more] none none state =
        .ok ([(range' tokens.length more.length).map (logitsAt model (tokens ++ more))], next) ∧
      Holds (tokens ++ more) next
  raises : ∀ {tokens state} more, Holds tokens state → ¬fits (tokens.length + more.length) →
    ∃ raised, model.forward cache [more] none none state = .error raised ∧ Raises raised
  shorter : ∀ {few many}, few ≤ many → fits many → fits few

theorem dynamic_caching (ε : Type) (model : NanoForCausalLM X V L) :
    Caching model (DynamicCache.protocol ε V) (fun _ => True) (Holds model) (fun _ => False) :=
  ⟨fun _ holds _ => holds.forward, fun _ _ never => absurd trivial never, fun _ => id⟩

structure SlotKeeps (model : NanoForCausalLM X V L) (pool : StaticCachePool V) (slot : Nat) (tokens : List Nat)
    (state : Slotted V) : Prop extends SlotHolds model tokens state where
  books : SameSlots pool state.1
  same : state.2.slot = slot

theorem static_caching (model : NanoForCausalLM X V L) (pool : StaticCachePool V) (slot : Nat) :
    Caching model (StaticKVCache.protocol V) (· ≤ pool.maxSeqLen) (SlotKeeps model pool slot)
      (fun raised => SameSlots pool raised.left.1 ∧ raised.left.2.slot = slot) where
  passes more keeps fits := by
    obtain ⟨next, ran, holds, books, same⟩ := keeps.toSlotHolds.forward (by rw [keeps.books.maxSeqLen]; exact fits)
    exact ⟨next, ran, holds, keeps.books.trans books, same.trans keeps.same⟩
  raises more keeps exceeds := by
    obtain ⟨raised, ran, pool, same⟩ :=
      keeps.toSlotHolds.forward_exceeded (by rw [keeps.books.maxSeqLen]; exact Nat.lt_of_not_le exceeds)
    exact ⟨raised, ran, by rw [pool]; exact keeps.books, same.trans keeps.same⟩
  shorter := Nat.le_trans

/-! ## Blocks -/

structure PagedRest (pool : PagedCachePool V) (held : Multiset Nat) (state : Paged V) : Prop where
  shape : SameShape pool state.1
  balanced : Balanced state.1.allocator (↑state.2.blockTable + held)
  wellFormed : WellFormed pool.blockSize state.2

structure PagedLeft (pool : PagedCachePool V) (held : Multiset Nat) (state : Paged V) : Prop where
  shape : SameShape pool state.1
  balanced : Balanced state.1.allocator (↑state.2.blockTable + held)

structure PagedHolds (model : NanoForCausalLM X V L) (pool : PagedCachePool V) (held : Multiset Nat) (tokens : List Nat)
    (state : Paged V) : Prop extends PagedRest pool held state where
  numTokens : state.2.numTokens = tokens.length
  own : ∀ block ∈ state.2.blockTable, block ∉ held
  free : state.1.allocator.numFree + ceilDiv tokens.length pool.blockSize = pool.allocator.numFree
  rows : ∀ layer, layer < model.numHiddenLayers →
    rowsOf state layer = (range tokens.length).map (kvAt model tokens layer)

section Blocks

variable {pool : PagedCachePool V} {held : Multiset Nat} {state : Paged V} {tokens : List Nat}

theorem PagedRest.left (rest : PagedRest pool held state) : PagedLeft pool held state := ⟨rest.shape, rest.balanced⟩

theorem PagedHolds.need (holds : PagedHolds model pool held tokens state) (n : Nat) :
    growNeed state.1 state.2 n = ceilDiv (tokens.length + n) pool.blockSize - ceilDiv tokens.length pool.blockSize := by
  have sole : tailNeed state.1 state.2 = 0 := by
    unfold tailNeed
    split
    · next tail last =>
      have mem := mem_of_getLast? last
      have refs : state.1.allocator.refs tail = 1 := by
        rw [holds.balanced.refs, Multiset.count_add, Multiset.coe_count,
          count_eq_one_of_mem holds.wellFormed.nodup mem, Multiset.count_eq_zero_of_notMem (holds.own tail mem)]
      exact if_neg (by rw [BlockAllocator.refCount, refs]; omega)
    · rfl
  rw [growNeed, sole, holds.shape.blockSize, holds.numTokens, holds.wellFormed.covers, holds.numTokens]
  simp

variable (pos : 0 < pool.blockSize)
include pos

theorem PagedHolds.empty (model : NanoForCausalLM X V L) (bal : Balanced pool.allocator held) :
    PagedHolds model pool held [] (pool, {}) where
  shape := .refl _
  balanced := by simpa using bal
  wellFormed := .empty pos
  numTokens := rfl
  own := by simp
  free := by simp [ceilDiv_zero pos]
  rows layer _ := by simp [rowsOf, tableRows]

variable (layers : pool.numHiddenLayers = model.numHiddenLayers)
include layers

theorem PagedHolds.forward (holds : PagedHolds model pool held tokens state) (more : List Nat)
    (fits : ceilDiv (tokens.length + more.length) pool.blockSize ≤ pool.allocator.numFree) :
    ∃ next, model.forward (protocol V) [more] none none state =
        .ok ([(range' tokens.length more.length).map (logitsAt model (tokens ++ more))], next) ∧
      PagedHolds model pool held (tokens ++ more) next := by
  let span : Span := ⟨tokens ++ more, tokens.length⟩
  have count : span.count = more.length := by simp [span, Span.count]
  have inputs : span.inputs = more := by simp [span, Span.inputs]
  have size := holds.shape.blockSize
  have longer := ceilDiv_mono pos (Nat.le_add_right tokens.length more.length)
  have free := holds.free
  obtain ⟨next, ran, passing⟩ := paged_forward_spec span (by omega)
    (by rw [holds.shape.numHiddenLayers, layers]) holds.balanced (by rw [size]; exact holds.wellFormed)
    (by rw [count, holds.need]; omega)
    (fun layer inModel => by
      rw [holds.rows layer inModel]
      exact map_congr_left fun position mem => (kvAt_append more layer (mem_range.mp mem)).symm)
  have taken := passing.numFree
  rw [count, holds.need] at taken
  refine ⟨next, ?_, ⟨holds.shape.trans passing.shape, passing.balanced, size ▸ passing.wellFormed⟩, ?_, ?_, ?_, ?_⟩
  · simp only [inputs, Span.positions, count] at ran
    have position : (protocol V).len state = tokens.length := holds.numTokens
    rw [forward_continues, position]
    exact ran
  · rw [passing.numTokens, holds.numTokens, count, length_append]
  · -- The full blocks are those from before; nobody else has the others.
    intro block mem
    rw [← take_append_drop (state.2.numTokens / state.1.blockSize) next.2.blockTable, passing.front] at mem
    rcases mem_append.mp mem with old | new
    · exact holds.own block (mem_of_mem_take old)
    · exact passing.exclusive block new
  · rw [length_append]
    omega
  · intro layer inModel
    have visited := passing.visited layer inModel (by rw [holds.shape.numHiddenLayers, layers]; exact inModel)
    have context : rowsOf state layer = (range span.start).map (kvAt model span.tokens layer) := by
      rw [holds.rows layer inModel]
      exact map_congr_left fun position mem => (kvAt_append more layer (mem_range.mp mem)).symm
    rw [visited, context, span.append_rows, count, length_append]

theorem PagedRest.forward_halts (rest : PagedRest pool held state) (inputs : List Nat)
    (short : state.1.allocator.numFree < growNeed state.1 state.2 inputs.length) :
    ∃ left, model.forward (protocol V) [inputs] none none state = .error (.outOfBlocks left) ∧
      PagedLeft pool held left := by
  have size := rest.shape.blockSize
  obtain ⟨k, kEq⟩ : ∃ k, zipWith (model.kvProj 0) (inputs.map model.embedTokens)
    (range' state.2.numTokens inputs.length) = k := ⟨_, rfl⟩
  have length : k.length = inputs.length := by simp [← kEq]
  have updated := update_zero_spec (fun _ => k) (by omega)
    (by rw [rest.shape.numHiddenLayers, layers]; exact model.layered) rest.balanced (by rw [size]; exact rest.wellFormed)
  unfold Ends at updated
  split at updated
  case h_1 =>
    -- A pass that returns has taken the blocks it needs.
    have taken := updated.2.numFree
    rw [length] at taken
    simp only at taken
    omega
  case h_2 left raised =>
    refine ⟨left, ?_, rest.shape.trans updated.1.shape, updated.1.balanced⟩
    rw [forward_continues]
    apply forward_raised
    simp only [protocol, map_cons, map_nil, zipWith_cons_cons, headD_cons, kEq, raised]
  case h_3 => exact updated.elim

theorem paged_caching (held : Multiset Nat) :
    Caching model (protocol V) (fun n => ceilDiv n pool.blockSize ≤ pool.allocator.numFree)
      (PagedHolds model pool held) (fun raised => ∃ left, raised = .outOfBlocks left ∧ PagedLeft pool held left) where
  passes more holds fits := holds.forward pos layers more fits
  raises {tokens state} more holds exceeds := by
    have free := holds.free
    obtain ⟨left, ran, leftHolds⟩ := holds.toPagedRest.forward_halts pos layers more (by rw [holds.need]; omega)
    exact ⟨_, ran, left, rfl, leftHolds⟩
  shorter le := Nat.le_trans (ceilDiv_mono pos le)

end Blocks

/-- One pass for every chunk, with the positions left to `forward`. -/
def feedChunks (model : NanoForCausalLM X V L) (cache : KVCache ε σ V) :
    List (List Nat) → σ → Except ε (List (List L) × σ)
  | [], state => .ok ([], state)
  | chunk :: chunks, state =>
    match model.forward cache [chunk] none none state with
    | .error raised => .error raised
    | .ok (logits, state) =>
      match feedChunks model cache chunks state with
      | .error raised => .error raised
      | .ok (more, state) => .ok (logits ++ more, state)

theorem logitsAt_append {position : Nat} {tokens : List Nat} (more : List Nat) (lt : position < tokens.length) :
    logitsAt model (tokens ++ more) position = logitsAt model tokens position := by
  rw [logitsAt, logitsAt, hidden_append more _ lt]

/-- A row for every chunk with the logits of its tokens. -/
def Continues (model : NanoForCausalLM X V L) (tokens : List Nat) (chunks : List (List Nat)) (logits : List (List L)) :
    Prop :=
  logits.map length = chunks.map length ∧
    logits.flatten = (range' tokens.length chunks.flatten.length).map (logitsAt model (tokens ++ chunks.flatten))

theorem Caching.feedChunks {cache : KVCache ε σ V} {fits : Nat → Prop} {Holds : List Nat → σ → Prop} {Raises : ε → Prop}
    (caching : Caching model cache fits Holds Raises) (chunks : List (List Nat)) {tokens : List Nat} {state : σ}
    (holds : Holds tokens state) :
    match feedChunks model cache chunks state with
    | .ok (logits, _) => Continues model tokens chunks logits
    | .error raised => Raises raised ∧ ¬fits (tokens.length + chunks.flatten.length) := by
  -- On the chunks; what has been fed so far is the context for the rest.
  induction chunks generalizing tokens state with
  | nil => exact ⟨rfl, rfl⟩
  | cons chunk chunks ih =>
    by_cases room : fits (tokens.length + chunk.length)
    · obtain ⟨next, ran, nextHolds⟩ := caching.passes chunk holds room
      have rest := ih nextHolds
      simp only [Verified.feedChunks, ran]
      split at rest
      · next logits last fed =>
        obtain ⟨lengths, rows⟩ := rest
        simp only [fed]
        refine ⟨by simp [lengths], ?_⟩
        -- What is fed later does not matter to the rows of this chunk.
        have here : (range' tokens.length chunk.length).map (logitsAt model (tokens ++ chunk)) =
            (range' tokens.length chunk.length).map (logitsAt model (tokens ++ chunk ++ chunks.flatten)) := by
          apply map_congr_left
          intro position mem
          refine (logitsAt_append chunks.flatten ?_).symm
          simpa using (mem_range'_1.mp mem).2
        rw [singleton_append, flatten_cons, flatten_cons, rows, here, length_append, ← map_append,
          range'_append_1, append_assoc, length_append]
      · next raised fed =>
        simp only [fed]
        refine ⟨rest.1, fun all => rest.2 ?_⟩
        simpa [Nat.add_assoc] using all
    · obtain ⟨raised, ran, raises⟩ := caching.raises chunk holds room
      simp only [Verified.feedChunks, ran]
      refine ⟨raises, fun all => room (caching.shorter ?_ all)⟩
      simp

/-- A model whose logits say what the token has seen. -/
def tracing (layers : Nat) (layered : 0 < layers) :
    NanoForCausalLM (Nat × List (Nat × List (Nat × Nat))) (Nat × Nat) (List (Nat × List (Nat × Nat))) where
  numHiddenLayers := layers
  layered := layered
  embedTokens token := (token, [])
  kvProj _ x position := (x.1, position)
  decoderLayer _ x position keys := (x.1, x.2 ++ [(position, keys)])
  lmHead x := x.2

theorem hidden_tracing (layers : Nat) (layered : 0 < layers) (tokens : List Nat) (layer position : Nat) :
    hidden (tracing layers layered) tokens layer position =
      (tokens.getD position 0, replicate layer (position, (range (position + 1)).map fun key => (tokens.getD key 0, key))) := by
  induction layer generalizing position with
  | zero => rfl
  | succ layer ih =>
    have keys : kvAt (tracing layers layered) tokens layer = fun key => (tokens.getD key 0, key) := by
      funext key
      rw [kvAt, ih]
      rfl
    rw [hidden_succ, ih, keys, replicate_succ']
    rfl

/-- In whatever chunks a sequence is fed, the logits are those of a pass in which the token at
position `p` is given this position and allowed the keys `0, …, p`; a paged cache may have no block
for it. -/
theorem chunking_keeps_context (model : NanoForCausalLM X V L) (chunks : List (List Nat)) :
    (∃ logits last, feedChunks model (DynamicCache.protocol Empty V) chunks {} = .ok (logits, last) ∧
      Continues model [] chunks logits) ∧
    (∀ (pool : PagedCachePool V) held, 0 < pool.blockSize → pool.numHiddenLayers = model.numHiddenLayers →
      Balanced pool.allocator held →
      match feedChunks model (protocol V) chunks (pool, {}) with
      | .ok (logits, _) => Continues model [] chunks logits
      | .error _ => pool.allocator.numFree < ceilDiv chunks.flatten.length pool.blockSize) ∧
    ∀ layers layered tokens position, logitsAt (tracing layers layered) tokens position =
      List.replicate layers (position, (List.range (position + 1)).map fun key => (tokens.getD key 0, key)) := by
  refine ⟨?_, ?_, ?_⟩
  · have fed := (dynamic_caching Empty model).feedChunks chunks (.empty model)
    split at fed
    · next logits last ran => exact ⟨logits, last, ran, fed⟩
    · exact fed.1.elim
  · intro pool held positive layers balanced
    have fed := (paged_caching positive layers held).feedChunks chunks (.empty positive model balanced)
    cases ran : feedChunks model (protocol V) chunks (pool, {}) with
    | ok =>
      simp only [ran] at fed
      exact fed
    | error =>
      simp only [ran, List.length_nil, Nat.zero_add] at fed
      exact Nat.lt_of_not_le fed.2
  · intro layers layered tokens position
    rw [logitsAt, hidden_tracing]
    rfl

/-- Three tokens in chunks of two and one, in two blocks of two. -/
theorem chunking_keeps_context_blocks :
    (feedChunks (tracing 1 Nat.one_pos) (protocol (Nat × Nat)) [[5, 6], [7]] (.new 2 2 1 (0, 0), {})).map
        (fun result => result.1) =
      .ok [[[(0, [(5, 0)])], [(1, [(5, 0), (6, 1)])]], [[(2, [(5, 0), (6, 1), (7, 2)])]]] ∧
    match feedChunks (tracing 1 Nat.one_pos) (protocol (Nat × Nat)) [[5, 6], [7]] (.new 2 2 1 (0, 0), {}) with
    | .ok (logits, _) => Continues (tracing 1 Nat.one_pos) [] [[5, 6], [7]] logits
    | .error _ => 2 < ceilDiv 3 2 :=
  ⟨by rfl, (chunking_keeps_context (tracing 1 Nat.one_pos) [[5, 6], [7]]).2.1 (.new 2 2 1 (0, 0)) 0 Nat.two_pos rfl (.new 2)⟩

end Nanoserve.Verified
