import Nanoserve.Verified.BatchedDecode

/-! # Counting blocks

How many blocks a sequence takes and what is left, without a look at which blocks they are.
-/

namespace Nanoserve.Verified

open Engine Lib List
open Model (NanoForCausalLM)
open PagedKVCache (Paged unshareTail appendBlocks appendBlock writeLayer ensureCapacity)
open PrefixCache (hashChain)

variable {X V L S : Type} {pool : PagedCachePool V} {before : Paged V}
variable {rest : Multiset Nat}

/-! ## One sequence -/

/-- `taken` blocks left the free list, and the table is `longer` entries longer. -/
structure Supplied (rest : Multiset Nat) (before after : Paged V) (taken longer : Nat) : Prop where
  balanced : Balanced after.1.allocator (↑after.2.blockTable + rest)
  length : after.2.blockTable.length = before.2.blockTable.length + longer
  numTokens : after.2.numTokens = before.2.numTokens
  shape : SameShape before.1 after.1
  numFree : after.1.allocator.numFree + taken = before.1.allocator.numFree
  fewer : ∀ block ∈ rest, after.1.allocator.refs block ≤ before.1.allocator.refs block

namespace Supplied

variable {first second third : Paged V}

theorem refl (bal : Balanced first.1.allocator (↑first.2.blockTable + rest)) : Supplied rest first first 0 0 :=
  ⟨bal, rfl, rfl, .refl _, rfl, fun _ _ => Nat.le_refl _⟩

theorem trans {taken longer more further : Nat} (left : Supplied rest first second taken longer)
    (right : Supplied rest second third more further) :
    Supplied rest first third (taken + more) (longer + further) where
  balanced := right.balanced
  length := by rw [right.length, left.length, Nat.add_assoc]
  numTokens := right.numTokens.trans left.numTokens
  shape := left.shape.trans right.shape
  numFree := by rw [← left.numFree, ← right.numFree]; omega
  fewer block mem := (right.fewer block mem).trans (left.fewer block mem)

end Supplied

section

variable {cache : PagedKVCache} (bal : Balanced pool.allocator (↑cache.blockTable + rest))
include bal

theorem supplied_appendBlock {block : Nat} {alloc : BlockAllocator}
    (allocated : pool.allocator.allocate = some (block, alloc)) :
    Supplied rest (pool, cache) ({ pool with allocator := alloc }, cache.appendBlock pool.blockSize block) 1 1 := by
  obtain ⟨nextBalanced, fresh, sameBlocks, oneLess⟩ := bal.allocate_spec allocated
  refine ⟨?_, by simp [appendBlock], rfl, ⟨rfl, rfl, sameBlocks⟩, oneLess, ?_⟩
  · simp only [appendBlock]
    rw [coe_concat_add]
    exact nextBalanced
  · intro other mem
    have differs : other ≠ block := fun same => fresh (same ▸ Multiset.mem_add.mpr (.inr mem))
    rw [nextBalanced.refs, bal.refs, Multiset.count_cons_of_ne differs]

theorem appendBlocks_supplied {count : Nat} (enough : count ≤ pool.allocator.numFree) :
    ∃ after, appendBlocks pool cache count = .ok after ∧
      Supplied rest (pool, cache) after count count := by
  induction count generalizing pool cache with
  | zero => exact ⟨_, rfl, .refl bal⟩
  | succ count ih =>
    unfold appendBlocks
    cases allocated : pool.allocator.allocate with
    | none =>
      have exhausted := Balanced.allocate_none allocated
      omega
    | some taken =>
      obtain ⟨_, alloc⟩ := taken
      have first := supplied_appendBlock bal allocated
      have counted : alloc.numFree + 1 = pool.allocator.numFree := first.numFree
      obtain ⟨after, appended, more⟩ := ih first.balanced (by simp only; omega)
      refine ⟨after, appended, ?_⟩
      rw [Nat.add_comm count 1]
      exact first.trans more

theorem unshareTail_supplied (enough : tailNeed pool cache ≤ pool.allocator.numFree) :
    ∃ after, unshareTail pool cache = .ok after ∧
      Supplied rest (pool, cache) after (tailNeed pool cache) 0 := by
  unfold unshareTail
  unfold tailNeed at enough ⊢
  cases lastEq : cache.blockTable.getLast? with
  | none => exact ⟨_, rfl, .refl bal⟩
  | some tail =>
    simp only [lastEq] at enough ⊢
    by_cases sole : pool.allocator.refCount tail ≤ 1
    · rw [if_pos sole, if_neg (by omega)]
      exact ⟨_, rfl, .refl bal⟩
    · rw [if_pos (by omega)] at enough
      rw [if_neg sole, if_pos (by omega)]
      cases allocated : pool.allocator.allocate with
      | none =>
        have exhausted := Balanced.allocate_none allocated
        omega
      | some taken =>
        obtain ⟨fresh, _⟩ := taken
        obtain ⟨front, tableEq⟩ : ∃ front, cache.blockTable = front ++ [tail] :=
          ⟨_, (dropLast_append_getLast? tail lastEq).symm⟩
        have held : (↑cache.blockTable + rest : Multiset Nat) = tail ::ₘ (↑front + rest) := by
          rw [tableEq, coe_concat_add]
        obtain ⟨_, _, decremented, lastBalanced, unheld, sameBlocks, oneLess⟩ := (held ▸ bal).replace_spec sole allocated
        simp only [PagedCachePool.copyBlock, decremented]
        refine ⟨_, rfl, ?_, ?_, rfl, ⟨rfl, rfl, sameBlocks⟩, oneLess, ?_⟩
        · simp only [tableEq, dropLast_concat, coe_concat_add]
          exact lastBalanced
        · simp [tableEq]
        · intro block mem
          have differs : block ≠ fresh := fun same => unheld (by simp [← same, mem])
          simp only
          rw [lastBalanced.refs, bal.refs, held, Multiset.count_cons_of_ne differs]
          exact Multiset.count_le_count_cons _ _ _

end

/-- `n` more tokens, and a table exactly as long as they need. -/
structure Fed (rest : Multiset Nat) (before after : Paged V) (n : Nat) : Prop where
  balanced : Balanced after.1.allocator (↑after.2.blockTable + rest)
  length : after.2.blockTable.length = ceilDiv (before.2.numTokens + n) before.1.blockSize
  numTokens : after.2.numTokens = before.2.numTokens + n
  shape : SameShape before.1 after.1
  numFree : after.1.allocator.numFree + growNeed before.1 before.2 n = before.1.allocator.numFree
  fewer : ∀ block ∈ rest, after.1.allocator.refs block ≤ before.1.allocator.refs block

theorem Fed.covers {after : Paged V} {n : Nat} (fed : Fed rest before after n) :
    after.2.blockTable.length = ceilDiv after.2.numTokens before.1.blockSize := by
  rw [fed.length, fed.numTokens]

theorem Fed.write {after : Paged V} {n : Nat} (fed : Fed rest before after n) (layer : Nat) (row : List V) :
    Fed rest before ((writeLayer after.1 after.2 layer row).2, after.2) n :=
  ⟨fed.balanced, fed.length, fed.numTokens, fed.shape.trans ⟨rfl, rfl, rfl⟩, fed.numFree, fed.fewer⟩

theorem grow_supplied {pool : PagedCachePool V} {cache : PagedKVCache} {rest : Multiset Nat} {n : Nat}
    (pos : 0 < pool.blockSize) (bal : Balanced pool.allocator (↑cache.blockTable + rest))
    (covers : cache.blockTable.length = ceilDiv cache.numTokens pool.blockSize)
    (enough : growNeed pool cache n ≤ pool.allocator.numFree) :
    ∃ after, PagedKVCache.grow pool cache n = .ok after ∧ Fed rest (pool, cache) after n := by
  have grows : cache.blockTable.length ≤ ceilDiv (cache.numTokens + n) pool.blockSize := by
    rw [covers]
    exact ceilDiv_mono pos (Nat.le_add_right _ _)
  have need : growNeed pool cache n = (if cache.numTokens % pool.blockSize ≠ 0 then tailNeed pool cache else 0) +
    (ceilDiv (cache.numTokens + n) pool.blockSize - cache.blockTable.length) := rfl
  obtain ⟨middle, unshared, first⟩ : ∃ middle,
      (if cache.numTokens % pool.blockSize ≠ 0 then unshareTail pool cache else .ok (pool, cache)) =
        .ok middle ∧
      Supplied rest (pool, cache) middle
        (if cache.numTokens % pool.blockSize ≠ 0 then tailNeed pool cache else 0) 0 := by
    by_cases partlyFull : cache.numTokens % pool.blockSize ≠ 0
    · rw [if_pos partlyFull] at need ⊢
      rw [if_pos partlyFull]
      exact unshareTail_supplied bal (by omega)
    · rw [if_neg partlyFull, if_neg partlyFull]
      exact ⟨_, rfl, .refl bal⟩
  have firstFree := first.numFree
  obtain ⟨after, appended, second⟩ := @appendBlocks_supplied V middle.1 rest middle.2 first.balanced
    (ceilDiv (cache.numTokens + n) pool.blockSize - cache.blockTable.length) (by simp only at firstFree; omega)
  have whole := first.trans second
  have capacity : ensureCapacity middle.1 middle.2 n = .ok after := by
    rw [ensureCapacity, first.numTokens, first.shape.blockSize, first.length, Nat.add_zero]
    exact appended
  refine ⟨(after.1, { after.2 with numTokens := after.2.numTokens + n }), ?_, ?_⟩
  · simp only [PagedKVCache.grow, unshared, capacity]
  · have lengthEq := whole.length
    have tokensEq := whole.numTokens
    have counted := whole.numFree
    refine ⟨whole.balanced, ?_, by simp only [tokensEq], whole.shape, counted, whole.fewer⟩
    simp only at lengthEq ⊢
    omega

-- Only layer 0 moves the sequence: before it nothing has happened, and behind it the count is final.
def MidCount (rest : Multiset Nat) (before : Paged V) (n layer : Nat) (state : Paged V) : Prop :=
  if layer = 0 then state = before else Fed rest before state n

theorem update_supplied {state : Paged V} {layer : Nat} {row : List V} (pos : 0 < before.1.blockSize)
    (bal : Balanced before.1.allocator (↑before.2.blockTable + rest))
    (covers : before.2.blockTable.length = ceilDiv before.2.numTokens before.1.blockSize)
    (enough : growNeed before.1 before.2 row.length ≤ before.1.allocator.numFree)
    (reached : MidCount rest before row.length layer state) :
    ∃ rows next, PagedKVCache.update layer row state = .ok (rows, next) ∧ Fed rest before next row.length := by
  unfold MidCount at reached
  by_cases first : layer = 0
  · rw [if_pos first] at reached
    subst first reached
    obtain ⟨after, grew, fed⟩ :=
      @grow_supplied V state.1 { state.2 with start := state.2.numTokens } rest row.length pos bal covers enough
    refine ⟨_, _, by simp only [PagedKVCache.update, if_pos, grew]; rfl, ?_⟩
    have whole : Fed rest state after row.length :=
      ⟨fed.balanced, fed.length, fed.numTokens, fed.shape, fed.numFree, fed.fewer⟩
    exact whole.write 0 row
  · rw [if_neg first] at reached
    refine ⟨_, _, by simp only [PagedKVCache.update, if_neg first]; rfl, ?_⟩
    exact reached.write layer row

theorem forward_supplied {model : NanoForCausalLM X V L} {before : Paged V} {rest : Multiset Nat}
    (inputs : List Nat) (start : Nat) (pos : 0 < before.1.blockSize)
    (bal : Balanced before.1.allocator (↑before.2.blockTable + rest))
    (covers : before.2.blockTable.length = ceilDiv before.2.numTokens before.1.blockSize)
    (enough : growNeed before.1 before.2 inputs.length ≤ before.1.allocator.numFree) :
    ∃ logits after, model.forward (PagedKVCache.protocol V) [inputs] (some [range' start inputs.length]) none
        before = .ok ([logits], after) ∧ logits.length = inputs.length ∧ Fed rest before after inputs.length := by
  have prog : ∀ layer state k, layer < model.numHiddenLayers → MidCount rest before inputs.length layer state →
      k.map length = [range' start inputs.length].map length →
      ∃ rows next, (PagedKVCache.protocol V).update layer k state = .ok (rows, next) ∧
        MidCount rest before inputs.length (layer + 1) next := by
    intro layer state k _ reached kShape
    obtain ⟨row, rfl⟩ : ∃ row, k = [row] := length_eq_one_iff.mp (by simpa using congrArg List.length kShape)
    have rowLength : row.length = inputs.length := by simpa using kShape
    rw [← rowLength] at reached enough ⊢
    obtain ⟨rows, next, updated, fed⟩ := update_supplied pos bal covers enough reached
    refine ⟨[rows], next, by simp only [PagedKVCache.protocol, headD_cons, updated], ?_⟩
    rw [MidCount, if_neg (Nat.succ_ne_zero _)]
    exact fed
  have shape : [inputs].map length = [range' start inputs.length].map length := by simp
  obtain ⟨logits, after, ran, logitsShape, reached⟩ := forward_total none shape prog (by rw [MidCount, if_pos rfl])
  obtain ⟨row, rfl⟩ : ∃ row, logits = [row] :=
    length_eq_one_iff.mp (by simpa using congrArg List.length logitsShape)
  rw [MidCount, if_neg (Nat.ne_of_gt model.layered)] at reached
  exact ⟨row, after, ran, by simpa using logitsShape, reached⟩

structure Stocked (cfg : Config X V L S) (pool : PagedCachePool V) (prefixCache : PrefixCache) (rest : Multiset Nat)
    (request : Request) (logits : List L) (after : PagedCachePool V) (next : PrefixCache) (cache : PagedKVCache) :
    Prop where
  result : ContinuousBatchingEngine.prefill cfg pool prefixCache request {} = .ok (logits, after, next, cache)
  balanced : Balanced after.allocator (↑(cachedBlocks next) + (↑cache.blockTable + rest))
  inverse : Inverse next
  covers : cache.blockTable.length = ceilDiv cache.numTokens pool.blockSize
  numTokens : cache.numTokens = request.promptLen
  shape : SameShape pool after
  numFree : pool.allocator.numFree ≤ after.allocator.numFree + ceilDiv request.promptLen pool.blockSize
  sampled : logits ≠ []

theorem attach_covers {size : Nat} (pos : 0 < size) (blocks : List Nat) :
    ∃ cache, PrefixCache.attach size {} blocks = (blocks.length * size, cache) ∧
      cache.blockTable = blocks ∧ cache.numTokens = blocks.length * size ∧
      cache.blockTable.length = ceilDiv cache.numTokens size := by
  cases blocks with
  | nil => exact ⟨{}, by simp [PrefixCache.attach], rfl, by simp, by simp [ceilDiv_zero pos]⟩
  | cons =>
    simp only [PrefixCache.attach, foldl_appendBlock]
    exact ⟨_, rfl, by simp, rfl, by simp only [nil_append]; rw [ceilDiv_mul pos]⟩

theorem prefill_supplied {cfg : Config X V L S} {prefixCache : PrefixCache} {req : Request}
    (pos : 0 < pool.blockSize) (bal : Balanced pool.allocator (↑(cachedBlocks prefixCache) + rest))
    (inverse : Inverse prefixCache) (ne : req.promptTokenIds ≠ [])
    (enough : ceilDiv req.promptLen pool.blockSize ≤ pool.allocator.numFree) :
    ∃ logits after next cache, Stocked cfg pool prefixCache rest req logits after next cache := by
  obtain ⟨matched, shared, touched, lookedUp, lookup⟩ :=
    matchPrefix_spec cfg.blockHash req.promptTokenIds.dropLast bal
  have short := matched_short pos ne lookup
  obtain ⟨seeded, attached, table, numTokens, covers⟩ := attach_covers pos matched
  have suffixLength : (req.promptTokenIds.drop (matched.length * pool.blockSize)).length =
      req.promptLen - matched.length * pool.blockSize := by
    simp [Request.promptLen]
  have need : growNeed { pool with allocator := shared } seeded
      (req.promptLen - matched.length * pool.blockSize) ≤ ceilDiv req.promptLen pool.blockSize :=
    @growNeed_seeded V { pool with allocator := shared } _ _ _ numTokens short
  have seededBalanced : Balanced shared (↑seeded.blockTable + (↑(cachedBlocks prefixCache) + rest)) := by
    rw [table]
    exact lookup.balanced
  have sameFree : shared.numFree = pool.allocator.numFree := congrArg List.length lookup.free
  obtain ⟨logits, grown, ran, logitsLength, fed⟩ := @forward_supplied X V L cfg.model
    ({ pool with allocator := shared }, seeded) _ (req.promptTokenIds.drop (matched.length * pool.blockSize))
    (matched.length * pool.blockSize) pos seededBalanced covers
    (by rw [suffixLength]; simp only [sameFree]; exact need.trans enough)
  rw [suffixLength] at fed logitsLength
  have grownBalanced : Balanced grown.1.allocator (↑(cachedBlocks touched) + (↑grown.2.blockTable + rest)) := by
    rw [lookup.cached, add_left_comm]
    exact fed.balanced
  have touchedInverse : Inverse touched := by
    intro block hash
    rw [lookup.byBlock, lookup.blockOf]
    exact inverse block hash
  obtain ⟨after, next, inserted, registered⟩ := insert_spec cfg.blockHash req.promptTokenIds
    grown.2.blockTable grownBalanced touchedInverse
    (fun block mem => Multiset.mem_add.mpr (.inl (Multiset.mem_coe.mpr mem)))
  refine ⟨logits, { grown.1 with allocator := after }, next, grown.2, ?_, registered.balanced, registered.inverse,
    fed.covers, ?_, ⟨fed.shape.blockSize, fed.shape.numHiddenLayers, ?_⟩, ?_, ?_⟩
  · simp only [ContinuousBatchingEngine.prefill, lookedUp, attached, ran, inserted, headD_cons]
  · rw [fed.numTokens, numTokens]
    omega
  · exact registered.numBlocks.trans (fed.shape.numBlocks.trans lookup.numBlocks)
  · have counted := fed.numFree
    have insertedFree : after.numFree = grown.1.allocator.numFree := congrArg List.length registered.free
    simp only at counted ⊢
    omega
  · intro empty
    rw [empty, length_nil] at logitsLength
    omega

structure Prefilled (cfg : Config X V L S) (pool : PagedCachePool V) (prefixCache : PrefixCache) (rest : Multiset Nat)
    (request : Request) (logits : List L) (after : PagedCachePool V) (next : PrefixCache) (cache : PagedKVCache) :
    Prop extends Stocked cfg pool prefixCache rest request logits after next cache where
  wellFormed : WellFormed pool.blockSize cache
  keeps : Keeps pool after (↑(cachedBlocks prefixCache) + rest)

theorem prefill_memory {cfg : Config X V L S} {prefixCache : PrefixCache} {req : Request} (pos : 0 < pool.blockSize)
    (layers : pool.numHiddenLayers = cfg.model.numHiddenLayers)
    (bal : Balanced pool.allocator (↑(cachedBlocks prefixCache) + rest)) (inverse : Inverse prefixCache)
    (ne : req.promptTokenIds ≠ [])
    (chain : prefixCache.enabled = true → (hashChain cfg.blockHash pool.blockSize req.promptTokenIds).Nodup)
    (enough : ceilDiv req.promptLen pool.blockSize ≤ pool.allocator.numFree) :
    ∃ logits after next cache, Prefilled cfg pool prefixCache rest req logits after next cache := by
  obtain ⟨_, _, _, _, _, _, _, _, _, stages⟩ := prefill_stages pos layers bal inverse ne chain enough
  obtain ⟨_, _, _, _, stocked⟩ := @prefill_supplied X V L S _ _ cfg _ _ pos bal inverse ne enough
  cases stocked.result.symm.trans stages.result
  exact ⟨_, _, _, _, stocked, stages.passing.wellFormed, stages.passing.keeps⟩

/-- Every sequence has a token more and is otherwise what it was. -/
structure Refilled (rest : Multiset Nat) (before : PagedCachePool V) (seqs : List Sequence) (after : PagedCachePool V)
    (grown : List Sequence) : Prop where
  balanced : Balanced after.allocator (heldBy tableOf grown + rest)
  shape : SameShape before after
  each : Forall₂ (fun seq next => next = { seq with cache := next.cache } ∧
    next.cache.numTokens = seq.cache.numTokens + 1) seqs grown
  covers : ∀ next ∈ grown, (tableOf next).length = ceilDiv next.cache.numTokens before.blockSize

namespace Refilled

variable {before after : PagedCachePool V} {seqs grown : List Sequence}
  (refilled : Refilled rest before seqs after grown)
include refilled

theorem length : grown.length = seqs.length := refilled.each.length_eq.symm

/-- Nothing but the cache of a sequence changes. -/
theorem map_eq {α : Type} (field : Sequence → α) (same : ∀ seq cache, field { seq with cache } = field seq) :
    grown.map field = seqs.map field := by
  have each := refilled.each
  clear refilled
  induction each with
  | nil => rfl
  | cons here _ ih => rw [map_cons, map_cons, ih, here.1, same]

theorem request : grown.map Sequence.request = seqs.map Sequence.request := refilled.map_eq _ fun _ _ => rfl

theorem finished : grown.map Sequence.finished = seqs.map Sequence.finished := refilled.map_eq _ fun _ _ => rfl

theorem of_mem {next : Sequence} (mem : next ∈ grown) :
    ∃ seq ∈ seqs, next.request = seq.request ∧ next.cache.numTokens = seq.cache.numTokens + 1 := by
  obtain ⟨index, placed⟩ := mem_iff_get.mp mem
  have inSeqs : index.1 < seqs.length := refilled.length ▸ index.2
  obtain ⟨same, tokens⟩ := refilled.each.get inSeqs index.2
  rw [← placed]
  exact ⟨_, get_mem seqs ⟨index.1, inSeqs⟩, by rw [same], tokens⟩

end Refilled

theorem commit_supplied {seqs : List Sequence} (pos : 0 < pool.blockSize)
    (bal : Balanced pool.allocator (heldBy tableOf seqs + rest))
    (covers : ∀ seq ∈ seqs, (tableOf seq).length = ceilDiv seq.cache.numTokens pool.blockSize)
    (enough : BatchedPagedCache.need pool seqs ≤ pool.allocator.numFree) :
    ∃ after grown write, BatchedPagedCache.commit pool seqs = .ok (after, grown, write) ∧
      Refilled rest pool seqs after grown := by
  induction seqs generalizing pool rest with
  | nil => exact ⟨pool, [], [], rfl, by simpa using bal, .refl pool, .nil, by simp⟩
  | cons seq _ ih =>
    have apart := balanced_head bal
    have seqCovers := covers seq mem_cons_self
    have headNeed := needOf_eq_growNeed pos seqCovers
    have headEnough := (needOf_le_need mem_cons_self).trans enough
    obtain ⟨⟨middle, cache⟩, grew, fed⟩ := grow_supplied pos apart seqCovers
      (headNeed ▸ headEnough)
    have sizeEq : middle.blockSize = pool.blockSize := fed.shape.blockSize
    obtain ⟨middleBalanced, middleEnough⟩ := behind_head sizeEq fed.balanced fed.fewer (headNeed ▸ fed.numFree) enough
    obtain ⟨after, tail, write, committed, spec⟩ := ih (by rw [sizeEq]; exact pos) middleBalanced
      (fun other mem => by rw [sizeEq]; exact covers other (mem_cons_of_mem _ mem)) middleEnough
    refine ⟨after, { seq with cache } :: tail, address after.blockSize cache.blockTable seq.cache.numTokens :: write,
      by simp only [BatchedPagedCache.commit, grew, committed], ?_, fed.shape.trans spec.shape,
      .cons ⟨rfl, fed.numTokens⟩ spec.each, ?_⟩
    · rw [heldBy_cons, add_assoc, add_left_comm]
      exact spec.balanced
    · intro next mem
      rw [← sizeEq]
      cases mem with
      | head => rw [sizeEq]; exact fed.covers
      | tail _ mem => exact spec.covers next mem

end Nanoserve.Verified
