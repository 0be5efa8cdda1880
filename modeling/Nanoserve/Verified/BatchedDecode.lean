import Mathlib.Algebra.Order.BigOperators.Group.List
import Mathlib.Algebra.Order.Group.Nat
import Nanoserve.Verified.Prefill

/-! # One decode pass over a batch

`BatchedPagedCache` grows every sequence by one token and then scatters and gathers for the whole
batch at once.
-/

namespace Nanoserve.Verified

open Engine Lib List Function
open Model (NanoForCausalLM keyMask admitted)
open BatchedPagedCache
open Multiset (mem_add)

variable {X V L S : Type}
variable {seq : Sequence} {after : PagedCachePool V} {grown : List Sequence} {index : Nat}
variable {pool before : PagedCachePool V} {seqs : List Sequence} {rest : Multiset Nat}

/-- The blocks of a running sequence. -/
abbrev tableOf (seq : Sequence) : List Nat := seq.cache.blockTable

theorem needOf_eq_growNeed (pos : 0 < pool.blockSize)
    (lengthEq : (tableOf seq).length = ceilDiv seq.cache.numTokens pool.blockSize) :
    needOf pool seq = growNeed pool seq.cache 1 := by
  by_cases boundary : seq.cache.numTokens % pool.blockSize = 0
  · have fresh : ceilDiv (seq.cache.numTokens + 1) pool.blockSize = seq.cache.numTokens / pool.blockSize + 1 := by
      obtain ⟨blocks, tokens⟩ := Nat.dvd_of_mod_eq_zero boundary
      rw [tokens, Nat.mul_div_cancel_left _ pos]
      apply Nat.le_antisymm
      · rw [ceilDiv_le_iff pos, Nat.add_mul, Nat.mul_comm]
        omega
      · have inside := div_lt_ceilDiv pos (Nat.lt_succ_self (pool.blockSize * blocks))
        rw [Nat.mul_div_cancel_left _ pos] at inside
        exact inside
    rw [ceilDiv_of_mod_eq_zero pos boundary] at lengthEq
    simp only [needOf, growNeed, boundary, if_pos, ne_eq, not_true_eq_false, if_false, fresh, lengthEq]
    omega
  · have same : ceilDiv (seq.cache.numTokens + 1) pool.blockSize = seq.cache.blockTable.length := by
      rw [lengthEq]
      apply Nat.le_antisymm
      · rw [ceilDiv_of_mod_ne_zero pos boundary, ceilDiv_le_iff pos, Nat.add_mul]
        have split := Nat.div_add_mod seq.cache.numTokens pool.blockSize
        have below := Nat.mod_lt seq.cache.numTokens pos
        rw [Nat.mul_comm] at split
        omega
      · exact ceilDiv_mono pos (Nat.le_add_right _ _)
    cases tail : seq.cache.blockTable.getLast? with
    | none => simp [needOf, growNeed, tailNeed, boundary, same, tail]
    | some => simp [needOf, growNeed, tailNeed, boundary, same, tail]

theorem needOf_le_one (pool : PagedCachePool V) (seq : Sequence) : needOf pool seq ≤ 1 := by
  unfold needOf
  split
  · exact Nat.le_refl _
  · split
    · split <;> omega
    · exact Nat.zero_le _

theorem need_le_length (pool : PagedCachePool V) (seqs : List Sequence) :
    need pool seqs ≤ seqs.length := by
  induction seqs with
  | nil => exact Nat.le_refl _
  | cons seq _ ih =>
    have first := needOf_le_one pool seq
    simp only [need, map_cons, sum_cons, length_cons] at ih ⊢
    omega

theorem needOf_le_need {pool : PagedCachePool V} {seqs : List Sequence} {seq : Sequence} (member : seq ∈ seqs) :
    needOf pool seq ≤ need pool seqs :=
  le_sum_of_mem (mem_map_of_mem member)

theorem need_mono (sameSize : after.blockSize = before.blockSize)
    (fewer : ∀ seq ∈ seqs, ∀ block ∈ tableOf seq, after.allocator.refs block ≤ before.allocator.refs block) :
    need after seqs ≤ need before seqs := by
  induction seqs with
  | nil => exact Nat.le_refl _
  | cons seq _ ih =>
    have head : needOf after seq ≤ needOf before seq := by
      simp only [needOf, sameSize]
      split
      · exact Nat.le_refl _
      · cases lastEq : seq.cache.blockTable.getLast? with
        | none => exact Nat.le_refl _
        | some tail =>
          have refs : after.allocator.refCount tail ≤ before.allocator.refCount tail :=
            fewer seq mem_cons_self tail (mem_of_getLast? lastEq)
          simp only
          by_cases shared : after.allocator.refCount tail > 1
          · rw [if_pos shared, if_pos (by omega)]
          · grind
    have tail := ih fun other member => fewer other (mem_cons_of_mem _ member)
    simp only [need, map_cons, sum_cons] at tail ⊢
    omega

theorem prepare_short (short : pool.allocator.numFree < need pool seqs) :
    prepare pool seqs = .error (.outOfBlocks (pool, seqs)) := by
  rw [prepare, if_pos short]

theorem prepare_committed {write : List Nat} (enough : need pool seqs ≤ pool.allocator.numFree)
    (committed : commit pool seqs = .ok (after, grown, write)) :
    prepare pool seqs = .ok (after, grown, indices grown write) := by
  rw [prepare, if_neg (Nat.not_lt.mpr enough)]
  simp only [committed]

theorem prepare_cases {Commits : PagedCachePool V → List Sequence → List Nat → Prop}
    (commits : need pool seqs ≤ pool.allocator.numFree → ∃ after grown write,
      commit pool seqs = .ok (after, grown, write) ∧ Commits after grown write) :
    (pool.allocator.numFree < need pool seqs ∧ prepare pool seqs = .error (.outOfBlocks (pool, seqs))) ∨
    (need pool seqs ≤ pool.allocator.numFree ∧ ∃ after grown write, commit pool seqs = .ok (after, grown, write) ∧
      prepare pool seqs = .ok (after, grown, indices grown write) ∧ Commits after grown write) := by
  by_cases short : pool.allocator.numFree < need pool seqs
  · exact .inl ⟨short, prepare_short short⟩
  · have enough : need pool seqs ≤ pool.allocator.numFree := Nat.le_of_not_lt short
    obtain ⟨after, grown, write, committed, spec⟩ := commits enough
    exact .inr ⟨enough, after, grown, write, committed, prepare_committed enough committed, spec⟩

theorem balanced_head {alloc : BlockAllocator}
    (bal : Balanced alloc (heldBy tableOf (seq :: seqs) + rest)) :
    Balanced alloc (↑(tableOf seq) + (heldBy tableOf seqs + rest)) := by
  rw [heldBy_cons, add_assoc] at bal
  exact bal

theorem mem_held_others {other : Sequence} (member : other ∈ seqs) {block : Nat} (blockIn : block ∈ tableOf other) :
    block ∈ heldBy tableOf seqs + rest :=
  mem_add.mpr (.inl (mem_heldBy.mpr ⟨other, member, blockIn⟩))

theorem behind_head {pool middle : PagedCachePool V} {seq : Sequence} {seqs : List Sequence} {rest : Multiset Nat}
    {cache : PagedKVCache} (sameSize : middle.blockSize = pool.blockSize)
    (bal : Balanced middle.allocator (↑cache.blockTable + (heldBy tableOf seqs + rest)))
    (fewer : ∀ block ∈ heldBy tableOf seqs + rest, middle.allocator.refs block ≤ pool.allocator.refs block)
    (counted : middle.allocator.numFree + needOf pool seq = pool.allocator.numFree)
    (enough : need pool (seq :: seqs) ≤ pool.allocator.numFree) :
    Balanced middle.allocator (heldBy tableOf seqs + (↑cache.blockTable + rest)) ∧
      need middle seqs ≤ middle.allocator.numFree := by
  have tailNeeds : need middle seqs ≤ need pool seqs :=
    need_mono sameSize fun other member block blockIn => fewer block (mem_held_others member blockIn)
  constructor
  · rw [add_left_comm]
    exact bal
  · simp only [need, map_cons, sum_cons] at enough tailNeeds ⊢
    omega

/-! ## Growing the batch -/

structure Extended (before after : PagedCachePool V) (others : Multiset Nat) (seq next : Sequence) : Prop where
  same : next = { seq with cache := next.cache }
  numTokens : next.cache.numTokens = seq.cache.numTokens + 1
  wellFormed : WellFormed before.blockSize next.cache
  front : (tableOf next).take (seq.cache.numTokens / before.blockSize) =
    (tableOf seq).take (seq.cache.numTokens / before.blockSize)
  rows : ∀ layer, layer < before.numHiddenLayers →
    tableRows after (tableOf next) seq.cache.numTokens layer = rowsOf (before, seq.cache) layer
  sole : ∀ block ∈ (tableOf next).drop (seq.cache.numTokens / before.blockSize), block ∉ others

structure Committed (rest : Multiset Nat) (before : PagedCachePool V) (seqs : List Sequence)
    (after : PagedCachePool V) (grown : List Sequence) (write : List Nat) : Prop where
  balanced : Balanced after.allocator (heldBy tableOf grown + rest)
  length : grown.length = seqs.length
  each : ∀ (index : Nat) seq next, seqs[index]? = some seq → grown[index]? = some next →
    Extended before after (heldBy tableOf (grown.eraseIdx index) + rest) seq next
  shape : SameShape before after
  keeps : Keeps before after rest
  write : write = grown.map fun next => address before.blockSize (tableOf next) (next.cache.numTokens - 1)

theorem Committed.not_held {write : List Nat} {table : List Nat}
    (committed : Committed (↑table + rest) before seqs after grown write) {block : Nat} (inTable : block ∈ table)
    (outside : block ∉ heldBy tableOf seqs) : block ∉ heldBy tableOf grown := by
  intro held
  obtain ⟨next, nextIn, blockIn⟩ := mem_heldBy.mp held
  obtain ⟨index, nextPlaced⟩ := mem_iff_getElem?.mp nextIn
  have inSeqs : index < seqs.length := by
    rw [← committed.length]
    exact (List.getElem?_eq_some_iff.mp nextPlaced).1
  have extended := committed.each index _ next (getElem?_eq_getElem inSeqs) nextPlaced
  rw [← take_append_drop (seqs[index].cache.numTokens / before.blockSize) (tableOf next),
    extended.front, mem_append] at blockIn
  cases blockIn with
  | inl old => exact outside (mem_heldBy.mpr ⟨_, getElem_mem inSeqs, mem_of_mem_take old⟩)
  | inr fresh =>
    refine extended.sole block fresh (mem_add.mpr (.inr (mem_add.mpr (.inl ?_))))
    exact Multiset.mem_coe.mpr inTable

theorem commit_spec (pos : 0 < pool.blockSize) (bal : Balanced pool.allocator (heldBy tableOf seqs + rest))
    (formed : ∀ seq ∈ seqs, WellFormed pool.blockSize seq.cache)
    (enough : need pool seqs ≤ pool.allocator.numFree) :
    ∃ after grown write, commit pool seqs = .ok (after, grown, write) ∧ Committed rest pool seqs after grown write := by
  induction seqs generalizing pool rest with
  | nil =>
    refine ⟨pool, [], [], rfl, by simpa using bal, rfl, ?_, .refl pool, .refl pool rest, rfl⟩
    intro index seq next placed
    simp at placed
  | cons seq _ ih =>
    have seqFormed := formed seq mem_cons_self
    have apart := balanced_head bal
    have headNeed := needOf_eq_growNeed pos seqFormed.covers
    have headEnough := (needOf_le_need mem_cons_self).trans enough
    obtain ⟨⟨middle, cache⟩, grew, grown⟩ := grow_ok (n := 1) pos apart seqFormed (headNeed ▸ headEnough)
    have sizeEq : middle.blockSize = pool.blockSize := grown.shape.blockSize
    have layersEq := grown.shape.numHiddenLayers
    have middleKeeps := grown.confined.keeps grown.exclusive
    obtain ⟨middleBalanced, middleEnough⟩ := behind_head sizeEq grown.balanced (fun _ member => grown.refs_le apart member)
      (headNeed ▸ grown.numFree) enough
    obtain ⟨after, tail, write, committed, spec⟩ := ih (by omega)
      middleBalanced (fun other member => by rw [sizeEq]; exact formed other (mem_cons_of_mem _ member))
      middleEnough
    have afterSize := spec.shape.blockSize.trans sizeEq
    refine ⟨after, { seq with cache } :: tail, address after.blockSize cache.blockTable seq.cache.numTokens :: write,
      by simp only [commit, grew, committed], ?_, ?_, ?_, grown.shape.trans spec.shape, ?_, ?_⟩
    · rw [heldBy_cons, add_assoc, add_left_comm]
      exact spec.balanced
    · simp [spec.length]
    · intro index other next placed grownPlaced
      cases index with
      | zero =>
        simp only [getElem?_cons_zero, Option.some.injEq] at placed grownPlaced
        subst placed grownPlaced
        refine ⟨rfl, grown.numTokens, grown.wellFormed, grown.front, ?_, ?_⟩
        · intro layer inModel
          have covered := grown.wellFormed.numTokens_le pos
          rw [grown.numTokens] at covered
          have fits : seq.cache.numTokens ≤ cache.blockTable.length * middle.blockSize := by grind
          exact (spec.keeps.tableRows (by omega) spec.shape.blockSize
            (fun block member => mem_add.mpr (.inl (Multiset.mem_coe.mpr member))) fits).trans
              (grown.tableRows inModel)
        · intro block member
          have outside := grown.exclusive block member
          rw [mem_add, not_or] at outside
          rw [eraseIdx_cons_zero, mem_add, not_or]
          exact ⟨spec.not_held (mem_of_mem_drop member) outside.1, outside.2⟩
      | succ index =>
        simp only [getElem?_cons_succ] at placed grownPlaced
        have extended := spec.each index other next placed grownPlaced
        have member := mem_of_getElem? placed
        refine ⟨extended.same, extended.numTokens, by rw [← sizeEq]; exact extended.wellFormed, ?_, ?_, ?_⟩
        · rw [← sizeEq]
          exact extended.front
        · intro layer inModel
          rw [extended.rows layer (by grind)]
          exact middleKeeps.tableRows pos sizeEq (fun _ blockIn => mem_held_others member blockIn)
            ((formed other (mem_cons_of_mem _ member)).numTokens_le pos)
        · rw [← sizeEq, eraseIdx_cons_succ, heldBy_cons, add_assoc, add_left_comm]
          exact extended.sole
    · exact (middleKeeps.mono fun _ held => mem_add.mpr (.inr held)).trans sizeEq
        (spec.keeps.mono fun _ held => mem_add.mpr (.inr held))
    · simp only [map_cons, spec.write, sizeEq, afterSize]
      congr 2
      have tokens : cache.numTokens = seq.cache.numTokens + 1 := grown.numTokens
      omega

/-! ## The batched pass -/

def lastSlot (blockSize : Nat) (seq : Sequence) : Nat := address blockSize (tableOf seq) (seq.cache.numTokens - 1)

structure Ready (blockSize : Nat) (rest : Multiset Nat) (seqs : List Sequence) : Prop where
  wellFormed : ∀ seq ∈ seqs, WellFormed blockSize seq.cache
  nonempty : ∀ seq ∈ seqs, 0 < seq.cache.numTokens
  sole : ∀ (index : Nat) seq, seqs[index]? = some seq →
    ∀ block ∈ (tableOf seq).drop ((seq.cache.numTokens - 1) / blockSize),
      block ∉ heldBy tableOf (seqs.eraseIdx index) + rest

theorem Committed.ready {write : List Nat} (committed : Committed rest before seqs after grown write) :
    Ready before.blockSize rest grown := by
  have extended : ∀ (index : Nat) next, grown[index]? = some next →
      ∃ seq, Extended before after (heldBy tableOf (grown.eraseIdx index) + rest) seq next := by
    intro index next placed
    have inSeqs : index < seqs.length := by
      rw [← committed.length]
      exact (List.getElem?_eq_some_iff.mp placed).1
    exact ⟨_, committed.each index _ next (getElem?_eq_getElem inSeqs) placed⟩
  refine ⟨?_, ?_, ?_⟩
  · intro next member
    obtain ⟨index, placed⟩ := mem_iff_getElem?.mp member
    obtain ⟨seq, grew⟩ := extended index next placed
    exact grew.wellFormed
  · intro next member
    obtain ⟨index, placed⟩ := mem_iff_getElem?.mp member
    obtain ⟨seq, grew⟩ := extended index next placed
    rw [grew.numTokens]
    exact Nat.succ_pos _
  · intro index next placed
    obtain ⟨seq, grew⟩ := extended index next placed
    rw [grew.numTokens, Nat.add_sub_cancel]
    exact grew.sole

namespace Ready

variable {blockSize : Nat}

section

variable (ready : Ready blockSize rest seqs)
include ready

theorem lastSlot_block (pos : 0 < blockSize) (member : seq ∈ seqs) :
    lastSlot blockSize seq / blockSize ∈ (tableOf seq).drop ((seq.cache.numTokens - 1) / blockSize) := by
  rw [lastSlot, div_address pos]
  refine getD_mem_drop (Nat.le_refl _) ((Nat.div_lt_iff_lt_mul pos).mpr ?_)
  have covered : seq.cache.numTokens ≤ (tableOf seq).length * blockSize :=
    (ready.wellFormed seq member).numTokens_le pos
  have ne := ready.nonempty seq member
  omega

theorem address_ne_lastSlot (pos : 0 < blockSize) {other : Nat}
    {writer : Sequence} (placed : seqs[index]? = some seq) (writerPlaced : seqs[other]? = some writer)
    {position : Nat} (lt : position < seq.cache.numTokens)
    (elsewhere : index = other → position ≠ seq.cache.numTokens - 1) :
    address blockSize (tableOf seq) position ≠ lastSlot blockSize writer := by
  have member := mem_of_getElem? placed
  have covered : seq.cache.numTokens ≤ (tableOf seq).length * blockSize :=
    (ready.wellFormed seq member).numTokens_le pos
  intro same
  by_cases self : index = other
  · subst self
    rw [placed, Option.some.injEq] at writerPlaced
    subst writerPlaced
    have inTable : position < (tableOf seq).length * blockSize := by omega
    have lastInTable : seq.cache.numTokens - 1 < (tableOf seq).length * blockSize := by omega
    exact elsewhere rfl (address_injective pos (ready.wellFormed seq member).nodup inTable lastInTable same)
  · -- The writer's block is nobody else's, but the position lies in one of `seq`'s.
    have written := ready.lastSlot_block pos (mem_of_getElem? writerPlaced)
    refine ready.sole other writer writerPlaced _ written (mem_add.mpr (.inl (mem_heldBy.mpr ⟨seq, ?_, ?_⟩)))
    · exact mem_eraseIdx_iff_getElem?.mpr ⟨index, self, placed⟩
    · rw [← same, div_address pos]
      exact getD_mem ((Nat.div_lt_iff_lt_mul pos).mpr (by omega))

theorem nodup_lastSlots (pos : 0 < blockSize) :
    (seqs.map (lastSlot blockSize)).Nodup := by
  rw [nodup_iff_getElem?_ne_getElem?]
  intro first second lt inMap same
  have secondIn : second < seqs.length := by simpa using inMap
  have firstIn : first < seqs.length := Nat.lt_trans lt secondIn
  simp only [getElem?_map, getElem?_eq_getElem firstIn, getElem?_eq_getElem secondIn, Option.map_some,
    Option.some.injEq] at same
  refine ready.address_ne_lastSlot pos (getElem?_eq_getElem firstIn) (getElem?_eq_getElem secondIn) ?_
    (fun eq => absurd eq (Nat.ne_of_lt lt)) same
  have ne := ready.nonempty _ (getElem_mem firstIn)
  omega

theorem tableRows_write (pos : 0 < blockSize)
    (size : pool.blockSize = blockSize) (layer : Nat) {values : List V} {value : V} (placed : seqs[index]? = some seq)
    (given : values[index]? = some value) :
    tableRows (pool.write layer (seqs.map (lastSlot blockSize)) values) (tableOf seq) seq.cache.numTokens layer =
      tableRows pool (tableOf seq) (seq.cache.numTokens - 1) layer ++ [value] := by
  have ne := ready.nonempty seq (mem_of_getElem? placed)
  have split : seq.cache.numTokens = seq.cache.numTokens - 1 + 1 := by omega
  have inSeqs := (List.getElem?_eq_some_iff.mp placed).1
  obtain ⟨inValues, valueEq⟩ := List.getElem?_eq_some_iff.mp given
  conv_lhs => rw [split]
  simp only [tableRows, range_succ, map_append, map_cons, map_nil, PagedCachePool.write,
    update_self, size]
  congr 1
  · apply map_congr_left
    intro position member
    rw [mem_range] at member
    apply scatter_of_not_mem
    intro written
    obtain ⟨_, otherPlaced⟩ := mem_iff_getElem?.mp written
    rw [getElem?_map, Option.map_eq_some_iff] at otherPlaced
    obtain ⟨_, writerPlaced, slotEq⟩ := otherPlaced
    exact ready.address_ne_lastSlot pos placed writerPlaced (by omega) (fun _ => by omega) slotEq.symm
  · have readBack := @scatter_getElem V (pool.kv layer) _ values (ready.nodup_lastSlots pos) index
      (by grind) inValues
    have seqEq := (List.getElem?_eq_some_iff.mp placed).2
    simp only [getElem_map, seqEq, valueEq] at readBack
    simp only [cons.injEq, and_true]
    exact readBack

end

theorem confined_write (pool : PagedCachePool V) (layer : Nat) (slots : List Nat) (values : List V) :
    Confined pool (pool.write layer slots values) (fun block => ∃ slot ∈ slots, slot / pool.blockSize = block) := by
  intro other slot untouched
  by_cases same : other = layer
  · subst same
    simp only [PagedCachePool.write, update_self]
    exact scatter_of_not_mem fun member => untouched ⟨slot, member, rfl⟩
  · simp [PagedCachePool.write, update_of_ne same]

end Ready

structure Scattered (before after : PagedCachePool V) (slots : List Nat) : Prop where
  allocator : after.allocator = before.allocator
  blockSize : after.blockSize = before.blockSize
  numHiddenLayers : after.numHiddenLayers = before.numHiddenLayers
  confined : Confined before after fun block => ∃ slot ∈ slots, slot / before.blockSize = block

theorem Scattered.write {slots : List Nat} (scattered : Scattered before after slots) (layer : Nat) (values : List V) :
    Scattered before (after.write layer slots values) slots where
  allocator := scattered.allocator
  blockSize := scattered.blockSize
  numHiddenLayers := scattered.numHiddenLayers
  confined other slot untouched := by
    have written := Ready.confined_write after layer slots values other slot
    rw [scattered.blockSize] at written
    rw [written untouched, scattered.confined other slot untouched]

theorem length_filterMap_getLast? {rows : List (List L)} (ne : ∀ row ∈ rows, row ≠ []) :
    (rows.filterMap getLast?).length = rows.length := by
  induction rows with
  | nil => rfl
  | cons row _ ih =>
    obtain ⟨_, lastEq⟩ := Option.isSome_iff_exists.mp (getLast?_isSome.mpr (ne row mem_cons_self))
    simp [lastEq, ih fun other member => ne other (mem_cons_of_mem _ member)]

theorem decodeForward_total {cfg : Config X V L S} {pool : PagedCachePool V} {tokens positions : List Nat}
    (batch : BatchedPagedCache) (lengths : tokens.length = positions.length) :
    ∃ logits after, ContinuousBatchingEngine.decodeForward cfg pool tokens positions batch = .ok (logits, after) ∧
      (logits.filterMap getLast?).length = tokens.length ∧ Scattered pool after batch.writeSlots := by
  have shape : (tokens.map fun token => [token]).map length =
      (positions.map fun position => [position]).map length := by
    simp only [map_map]
    apply ext_getElem (by grind)
    intro index _ _
    simp
  have prog : ∀ layer state k, layer < cfg.model.numHiddenLayers → Scattered pool state batch.writeSlots →
      k.map length = (positions.map fun position => [position]).map length →
      ∃ rows next, (BatchedPagedCache.protocol Empty V batch).update layer k state = .ok (rows, next) ∧
        Scattered pool next batch.writeSlots :=
    fun layer state k _ scattered _ => ⟨_, _, rfl, scattered.write layer _⟩
  have initially : Scattered pool pool batch.writeSlots := ⟨rfl, rfl, rfl, fun _ _ _ => rfl⟩
  obtain ⟨logits, after, ran, logitsShape, scattered⟩ := forward_total (some batch.mask) shape prog initially
  have counts : logits.length = tokens.length := by
    rw [lengths]
    simpa using congrArg List.length logitsShape
  refine ⟨logits, after, ran, ?_, scattered⟩
  rw [length_filterMap_getLast?, counts]
  intro row member
  obtain ⟨index, placed⟩ := mem_iff_getElem?.mp member
  have inPositions : index < positions.length := by grind
  have one := congrArg (·[index]?) logitsShape
  simp only [map_map, getElem?_map, placed, getElem?_eq_getElem inPositions, Option.map_some,
    comp_apply, length_singleton, Option.some.injEq] at one
  exact ne_nil_of_length_eq_add_one one

/-! ## Rows of a decode pass -/

def decodeSpan (context : Nat → List Nat) (seq : Sequence) : Span := ⟨context seq.request, seq.cache.numTokens - 1⟩

def Fits (context : Nat → List Nat) (seqs : List Sequence) : Prop :=
  ∀ seq ∈ seqs, (context seq.request).length = seq.cache.numTokens

structure MidDecode (model : NanoForCausalLM X V L) (context : Nat → List Nat) (before : PagedCachePool V)
    (seqs : List Sequence) (layer : Nat) (pool : PagedCachePool V) : Prop where
  scattered : Scattered before pool (seqs.map (lastSlot before.blockSize))
  visited : ∀ seq ∈ seqs, ∀ other, other < layer →
    rowsOf (pool, seq.cache) other = (range seq.cache.numTokens).map (kvAt model (context seq.request) other)
  pending : ∀ seq ∈ seqs, ∀ other, layer ≤ other → other < model.numHiddenLayers →
    tableRows pool (tableOf seq) (seq.cache.numTokens - 1) other =
      (range (seq.cache.numTokens - 1)).map (kvAt model (context seq.request) other)

section DecodePass

variable {model : NanoForCausalLM X V L} {context : Nat → List Nat} {layer : Nat}

theorem decodeSpan_count (ready : Ready before.blockSize rest seqs) (fits : Fits context seqs) (member : seq ∈ seqs) :
    (decodeSpan context seq).count = 1 := by
  have ne := ready.nonempty seq member
  have length := fits seq member
  simp only [decodeSpan, Span.count]
  omega

theorem decodeSpan_positions (ready : Ready before.blockSize rest seqs) (fits : Fits context seqs)
    (member : seq ∈ seqs) : (decodeSpan context seq).positions = [seq.cache.numTokens - 1] := by
  rw [Span.positions, decodeSpan_count ready fits member, range'_one]
  rfl

theorem MidDecode.write (pos : 0 < before.blockSize) (ready : Ready before.blockSize rest seqs)
    (mid : MidDecode model context before seqs layer pool) (inModel : layer < model.numHiddenLayers) :
    MidDecode model context before seqs (layer + 1) (pool.write layer (seqs.map (lastSlot before.blockSize))
      (seqs.map fun seq => kvAt model (context seq.request) layer (seq.cache.numTokens - 1))) := by
  refine ⟨mid.scattered.write layer _, ?_, ?_⟩
  · intro seq member other below
    by_cases same : other = layer
    · subst same
      obtain ⟨index, placed⟩ := mem_iff_getElem?.mp member
      have ne := ready.nonempty seq member
      have written := ready.tableRows_write pos mid.scattered.blockSize other placed
        (by rw [getElem?_map, placed]; rfl :
          (seqs.map fun seq => kvAt model (context seq.request) other (seq.cache.numTokens - 1))[index]? =
            some (kvAt model (context seq.request) other (seq.cache.numTokens - 1)))
      rw [rowsOf]
      refine written.trans ?_
      rw [mid.pending seq member other (Nat.le_refl _) inModel]
      have split : seq.cache.numTokens = seq.cache.numTokens - 1 + 1 := by omega
      conv_rhs => rw [split, range_succ, map_append]
      rfl
    · have earlier := mid.visited seq member other (by omega)
      rw [← earlier]
      simp only [rowsOf, tableRows, PagedCachePool.write, update_of_ne same]
  · intro seq member other above otherIn
    have later := mid.pending seq member other (by omega) otherIn
    rw [← later]
    simp only [tableRows, PagedCachePool.write, update_of_ne (show other ≠ layer by omega)]

theorem foldl_max_ge (lengths : List Nat) (initial : Nat) :
    initial ≤ lengths.foldl max initial ∧ ∀ length ∈ lengths, length ≤ lengths.foldl max initial := by
  induction lengths generalizing initial with
  | nil => simp
  | cons first _ ih =>
    obtain ⟨_, each⟩ := ih (max initial first)
    simp only [foldl_cons, mem_cons]
    refine ⟨by omega, ?_⟩
    rintro length (rfl | member)
    · omega
    · exact each length member

theorem admitted_gather (pos : 0 < before.blockSize) (ready : Ready before.blockSize rest seqs)
    (size : pool.blockSize = before.blockSize) (write : List Nat) (placed : seqs[index]? = some seq) :
    admitted (keyMask ((some (indices seqs write).mask).map (·.getD index [])) 1
        (((indices seqs write).readIndex.map (pool.gather layer)).getD index []).length 0)
      (((indices seqs write).readIndex.map (pool.gather layer)).getD index []) = rowsOf (pool, seq.cache) layer := by
  have member := mem_of_getElem? placed
  have longest := (foldl_max_ge (seqs.map fun seq => seq.cache.numTokens) 0).2 _
    (mem_map_of_mem (f := fun seq => seq.cache.numTokens) member)
  have formed := ready.wellFormed seq member
  have gathered : ((indices seqs write).readIndex.map (pool.gather layer)).getD index [] =
      (pad (indices seqs write).maxLen (seq.cache.slots.take seq.cache.numTokens)).map (pool.kv layer) := by
    simp [getD_eq_getElem?_getD, indices, placed, PagedCachePool.gather]
  have masked : (indices seqs write).mask.getD index [] =
      (range (indices seqs write).maxLen).map fun key => decide (key < seq.cache.numTokens) := by
    simp [getD_eq_getElem?_getD, indices, placed]
  have slotsLength : (seq.cache.slots.take seq.cache.numTokens).length = seq.cache.numTokens := by
    have covered := formed.numTokens_le pos
    rw [formed.slots, length_take, length_slots]
    omega
  have padded : (pad (indices seqs write).maxLen (seq.cache.slots.take seq.cache.numTokens)).length =
      (indices seqs write).maxLen := by
    simp only [pad, length_append, length_replicate, slotsLength]
    simp only [indices]
    omega
  rw [gathered]
  simp only [Option.map_some, keyMask, masked]
  have cutoff := admitted_cutoff seq.cache.numTokens
    ((pad (indices seqs write).maxLen (seq.cache.slots.take seq.cache.numTokens)).map (pool.kv layer))
  rw [length_map, padded] at cutoff
  rw [cutoff, ← map_take, pad, take_append_of_le_length (by omega), take_take, Nat.min_self,
    formed.slots, take_slots pos (formed.numTokens_le pos), map_map, rowsOf, tableRows, size]
  rfl

theorem MidDecode.serves (pos : 0 < before.blockSize) (ready : Ready before.blockSize rest seqs)
    (fits : Fits context seqs) (mid : MidDecode model context before seqs layer pool)
    (inModel : layer < model.numHiddenLayers) :
    ∃ next, Serves model
        (BatchedPagedCache.protocol Empty V (indices seqs (seqs.map (lastSlot before.blockSize))))
        (some (indices seqs (seqs.map (lastSlot before.blockSize))).mask) (seqs.map (decodeSpan context)) layer pool next ∧
      MidDecode model context before seqs (layer + 1) next := by
  have written := mid.write pos ready inModel
  have fed : ((seqs.map (decodeSpan context)).map (Span.rows model layer)).filterMap head? =
      seqs.map fun seq => kvAt model (context seq.request) layer (seq.cache.numTokens - 1) := by
    rw [map_map, filterMap_map]
    rw [← filterMap_eq_map]
    apply filterMap_congr
    intro seq member
    simp only [comp_apply, Span.rows, decodeSpan_positions ready fits member, map_cons, head?_cons]
    rfl
  refine ⟨_, ⟨_, rfl, ?_⟩, by simp only [fed]; exact written⟩
  intro index span spanPlaced query lt
  rw [getElem?_map, Option.map_eq_some_iff] at spanPlaced
  obtain ⟨seq, placed, rfl⟩ := spanPlaced
  have member := mem_of_getElem? placed
  have one := decodeSpan_count ready fits member
  have ne := ready.nonempty seq member
  rw [one] at lt ⊢
  have first : query = 0 := by omega
  subst first
  simp only [fed]
  refine (admitted_gather pos ready written.scattered.blockSize _ placed).trans ?_
  rw [written.visited seq member layer (Nat.lt_succ_self _)]
  have split : seq.cache.numTokens = seq.cache.numTokens - 1 + 0 + 1 := by omega
  conv_lhs => rw [split]
  rfl

end DecodePass

theorem decodeForward_rows {cfg : Config X V L S} {context : Nat → List Nat} {pool : PagedCachePool V}
    {rest : Multiset Nat} {seqs : List Sequence} (pos : 0 < pool.blockSize)
    (ready : Ready pool.blockSize rest seqs) (fits : Fits context seqs)
    (rows : ∀ seq ∈ seqs, ∀ layer, layer < cfg.model.numHiddenLayers →
      tableRows pool (tableOf seq) (seq.cache.numTokens - 1) layer =
        (range (seq.cache.numTokens - 1)).map (kvAt cfg.model (context seq.request) layer)) :
    ∃ after, ContinuousBatchingEngine.decodeForward cfg pool
        (seqs.map fun seq => (context seq.request).getD (seq.cache.numTokens - 1) 0)
        (seqs.map fun seq => seq.cache.numTokens - 1) (indices seqs (seqs.map (lastSlot pool.blockSize))) =
      .ok (seqs.map fun seq => [logitsAt cfg.model (context seq.request) (seq.cache.numTokens - 1)], after) ∧
      ∀ seq ∈ seqs, HoldsRows cfg.model (after, seq.cache) (context seq.request) := by
  have initially : MidDecode cfg.model context pool seqs 0 pool :=
    ⟨⟨rfl, rfl, rfl, fun _ _ _ => rfl⟩, fun _ _ _ below => absurd below (Nat.not_lt_zero _),
      fun seq member other _ inModel => rows seq member other inModel⟩
  obtain ⟨after, ran, finished⟩ := forward_spec
    (fun layer state inModel mid => MidDecode.serves pos ready fits mid inModel) initially
  have inputs : (seqs.map (decodeSpan context)).map Span.inputs =
      (seqs.map fun seq => (context seq.request).getD (seq.cache.numTokens - 1) 0).map fun token => [token] := by
    rw [map_map, map_map]
    apply map_congr_left
    intro seq member
    have single := (decodeSpan context seq).inputs_map id
    simp only [map_id_fun, id_eq, decodeSpan_positions ready fits member, map_cons, map_nil] at single
    exact single
  have positions : (seqs.map (decodeSpan context)).map Span.positions =
      (seqs.map fun seq => seq.cache.numTokens - 1).map fun position => [position] := by
    rw [map_map, map_map]
    apply map_congr_left
    intro seq member
    exact decodeSpan_positions ready fits member
  have logits : (seqs.map (decodeSpan context)).map (fun span => span.positions.map (logitsAt cfg.model span.tokens)) =
      seqs.map fun seq => [logitsAt cfg.model (context seq.request) (seq.cache.numTokens - 1)] := by
    rw [map_map]
    apply map_congr_left
    intro seq member
    simp only [comp_apply, decodeSpan_positions ready fits member, map_cons, map_nil]
    rfl
  rw [inputs, positions, logits] at ran
  exact ⟨after, ran, fun seq member layer inModel => finished.visited seq member layer inModel⟩

end Nanoserve.Verified
