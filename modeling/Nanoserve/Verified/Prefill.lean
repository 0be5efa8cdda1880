import Nanoserve.Engine.Scheduler
import Nanoserve.Verified.Causal
import Nanoserve.Verified.HashChain
import Nanoserve.Verified.PagedPass
import Nanoserve.Verified.PrefixMemory

/-! # Prefill

`_prefill` looks up the cached prefix, attaches it, runs the model over the suffix and registers the
prompt's full blocks.
-/

namespace Nanoserve.Verified

open Engine Lib List
open Model (NanoForCausalLM)
open PagedKVCache (Paged protocol)
open PrefixCache (hashChain)
open ContinuousBatchingEngine (prefill)

variable {X V L S : Type}
variable {count index : Nat} {new : Nat → List V} {state : Paged V} {model : NanoForCausalLM X V L}
  {matched tokens : List Nat} {logits : List L} {next : PrefixCache} {after : PagedCachePool V}
  {Occurs : List Nat → Prop}

/-! ## The model over one paged sequence -/

theorem Passing.congr {rest : Multiset Nat} {before after : Paged V} {done : Nat} {other : Nat → List V}
    (passing : Passing rest before after count done new) (agree : ∀ layer, layer < done → new layer = other layer) :
    Passing rest before after count done other :=
  { passing with visited := fun layer below inModel => by rw [← agree layer below]; exact passing.visited layer below inModel }

def MidPass (rest : Multiset Nat) (before : Paged V) (count : Nat) (new : Nat → List V) (layer : Nat)
    (state : Paged V) : Prop :=
  if layer = 0 then state = before else Passing rest before state count layer new

theorem MidPass.start (rest : Multiset Nat) (before : Paged V) (count : Nat) (new : Nat → List V) :
    MidPass rest before count new 0 before := by
  simp [MidPass]

theorem update_ok {before : Paged V} {rest : Multiset Nat} {layer : Nat} (pos : 0 < before.1.blockSize)
    (bal : Balanced before.1.allocator (↑before.2.blockTable + rest))
    (formed : WellFormed before.1.blockSize before.2) (inModel : layer < before.1.numHiddenLayers)
    (enough : growNeed before.1 before.2 count ≤ before.1.allocator.numFree) (length : (new layer).length = count)
    (reached : MidPass rest before count new layer state) :
    ∃ next, (protocol V).update layer [new layer] state = .ok ([rowsOf before layer ++ new layer], next) ∧
      Passing rest before next count (layer + 1) new := by
  unfold MidPass at reached
  by_cases first : layer = 0
  · subst first
    rw [if_pos rfl] at reached
    subst reached
    have updated := update_zero_spec new pos inModel bal formed
    rw [length] at updated
    unfold Ends at updated
    split at updated
    case h_1 result returned =>
      refine ⟨result.2, ?_, updated.2⟩
      simp only [protocol, headD_cons, returned, updated.1]
    case h_2 => exact absurd updated.2 (Nat.not_lt.mpr enough)
    case h_3 => exact updated.elim
  · rw [if_neg first] at reached
    obtain ⟨next, updated, continued⟩ := reached.update pos first inModel length
    refine ⟨next, ?_, continued⟩
    simp only [protocol, headD_cons, updated]

theorem paged_forward_total {model : NanoForCausalLM X V L} {before : Paged V} {rest : Multiset Nat}
    (inputs : List Nat) (start : Nat) (pos : 0 < before.1.blockSize)
    (layers : before.1.numHiddenLayers = model.numHiddenLayers)
    (bal : Balanced before.1.allocator (↑before.2.blockTable + rest))
    (formed : WellFormed before.1.blockSize before.2)
    (enough : growNeed before.1 before.2 inputs.length ≤ before.1.allocator.numFree) :
    ∃ logits after new, model.forward (protocol V) [inputs] (some [range' start inputs.length]) none
        before = .ok ([logits], after) ∧ logits.length = inputs.length ∧
      Passing rest before after inputs.length model.numHiddenLayers new := by
  have prog : ∀ layer state k, layer < model.numHiddenLayers →
      (∃ new, MidPass rest before inputs.length new layer state) →
      k.map length = [range' start inputs.length].map length →
      ∃ rows next, (protocol V).update layer k state = .ok (rows, next) ∧
        ∃ new, MidPass rest before inputs.length new (layer + 1) next := by
    intro layer state k inModel reached kShape
    obtain ⟨row, rfl⟩ : ∃ row, k = [row] := length_eq_one_iff.mp (by simpa using congrArg List.length kShape)
    have rowLength : row.length = inputs.length := by simpa using kShape
    -- The rows of this layer are the ones just handed over; those below stay what they were.
    have passing : ∃ new : Nat → List V, new layer = row ∧ MidPass rest before inputs.length new layer state := by
      obtain ⟨new, reached⟩ := reached
      refine ⟨Function.update new layer row, Function.update_self _ _ _, ?_⟩
      unfold MidPass at reached ⊢
      by_cases first : layer = 0
      · rw [if_pos first] at reached ⊢
        exact reached
      · rw [if_neg first] at reached ⊢
        refine reached.congr fun other below => ?_
        rw [Function.update_of_ne (Nat.ne_of_lt below)]
    obtain ⟨new, newEq, stateReached⟩ := passing
    obtain ⟨next, updated, continued⟩ := update_ok pos bal formed (layers ▸ inModel) enough
      (by rw [newEq]; exact rowLength) stateReached
    rw [newEq] at updated
    exact ⟨_, next, updated, new, by rw [MidPass, if_neg (Nat.succ_ne_zero _)]; exact continued⟩
  have initially : ∃ new, MidPass rest before inputs.length new 0 before := ⟨fun _ => [], .start ..⟩
  have shape : [inputs].map length = [range' start inputs.length].map length := by simp
  obtain ⟨logits, after, ran, logitsShape, new, reached⟩ := forward_total none shape prog initially
  obtain ⟨row, rfl⟩ : ∃ row, logits = [row] :=
    length_eq_one_iff.mp (by simpa using congrArg List.length logitsShape)
  rw [MidPass, if_neg (Nat.ne_of_gt model.layered)] at reached
  exact ⟨row, after, new, ran, by simpa using logitsShape, reached⟩

theorem paged_forward_spec {model : NanoForCausalLM X V L} {before : Paged V} {rest : Multiset Nat} (span : Span)
    (pos : 0 < before.1.blockSize) (layers : before.1.numHiddenLayers = model.numHiddenLayers)
    (bal : Balanced before.1.allocator (↑before.2.blockTable + rest))
    (formed : WellFormed before.1.blockSize before.2)
    (enough : growNeed before.1 before.2 span.count ≤ before.1.allocator.numFree)
    (rows : ∀ layer, layer < model.numHiddenLayers →
      rowsOf before layer = (range span.start).map (kvAt model span.tokens layer)) :
    ∃ after, model.forward (protocol V) [span.inputs] (some [span.positions]) none before =
        .ok ([span.positions.map (logitsAt model span.tokens)], after) ∧
      Passing rest before after span.count model.numHiddenLayers (fun layer => span.rows model layer) := by
  have serves : ∀ layer state, layer < model.numHiddenLayers →
      MidPass rest before span.count (fun layer => span.rows model layer) layer state →
      ∃ next, Serves model (protocol V) none [span] layer state next ∧
        MidPass rest before span.count (fun layer => span.rows model layer) (layer + 1) next := by
    intro layer state inModel reached
    obtain ⟨next, updated, continued⟩ := update_ok pos bal formed (layers ▸ inModel) enough
      (by simp [Span.rows, span.length_positions]) reached
    rw [rows layer inModel, span.append_rows] at updated
    exact ⟨next, .single updated, by rw [MidPass, if_neg (Nat.succ_ne_zero _)]; exact continued⟩
  have initially : MidPass rest before span.count (fun layer => span.rows model layer) 0 before := .start ..
  obtain ⟨after, ran, reached⟩ := forward_spec serves initially
  rw [MidPass, if_neg (Nat.ne_of_gt model.layered)] at reached
  exact ⟨after, ran, reached⟩

/-- The values `_prefill` goes through: the blocks `match` found, the sequence seeded with them, the
sequence after the pass, and the cache after `insert`. -/
structure Stages (cfg : Config X V L S) (pool : PagedCachePool V) (prefixCache : PrefixCache) (rest : Multiset Nat)
    (request : Request) (matched : List Nat) (shared : BlockAllocator) (touched : PrefixCache) (seeded : PagedKVCache)
    (logits : List L) (grown : Paged V) (new : Nat → List V) (after : BlockAllocator) (next : PrefixCache) : Prop where
  lookup : Matched pool.allocator prefixCache rest
    (hashChain cfg.blockHash pool.blockSize request.promptTokenIds.dropLast) matched shared touched
  short : matched.length * pool.blockSize < request.promptLen
  wellFormed : WellFormed pool.blockSize seeded
  table : seeded.blockTable = matched
  numTokens : seeded.numTokens = matched.length * pool.blockSize
  ran : cfg.model.forward (protocol V)
      [request.promptTokenIds.drop (matched.length * pool.blockSize)]
      (some [range' (matched.length * pool.blockSize)
        (request.promptTokenIds.drop (matched.length * pool.blockSize)).length]) none
      ({ pool with allocator := shared }, seeded) = .ok ([logits], grown)
  fed : logits.length = request.promptLen - matched.length * pool.blockSize
  passing : Passing (↑(cachedBlocks prefixCache) + rest) ({ pool with allocator := shared }, seeded) grown
    (request.promptLen - matched.length * pool.blockSize) cfg.model.numHiddenLayers new
  enough : growNeed { pool with allocator := shared } seeded
    (request.promptLen - matched.length * pool.blockSize) ≤ pool.allocator.numFree
  registered : Inserted grown.1.allocator touched (↑grown.2.blockTable + rest)
    ((hashChain cfg.blockHash pool.blockSize request.promptTokenIds).zip grown.2.blockTable) after next
  result : prefill cfg pool prefixCache request {} =
    .ok (logits, { grown.1 with allocator := after }, next, grown.2)

theorem matched_short {blockHash : Int → List Nat → Int} {pool : PagedCachePool V} {prefixCache touched : PrefixCache}
    {rest : Multiset Nat} {req : Request} {shared : BlockAllocator} (pos : 0 < pool.blockSize)
    (ne : req.promptTokenIds ≠ [])
    (lookup : Matched pool.allocator prefixCache rest
      (hashChain blockHash pool.blockSize req.promptTokenIds.dropLast) matched shared touched) :
    matched.length * pool.blockSize < req.promptLen := by
  have found : matched.length ≤ req.promptTokenIds.dropLast.length / pool.blockSize := by
    have lengths := congrArg List.length lookup.found
    simp only [length_map, length_take, length_hashChain] at lengths
    omega
  have promptPositive := length_pos_iff.mpr ne
  have covered := (Nat.le_div_iff_mul_le pos).mp found
  rw [length_dropLast] at covered
  show matched.length * pool.blockSize < req.promptTokenIds.length
  omega

/-- What was matched ends with a full block, so nothing is copied and only the suffix takes blocks. -/
theorem growNeed_seeded {pool : PagedCachePool V} {seeded : PagedKVCache} {full total : Nat}
    (numTokens : seeded.numTokens = full * pool.blockSize) (short : full * pool.blockSize < total) :
    growNeed pool seeded (total - full * pool.blockSize) ≤ ceilDiv total pool.blockSize := by
  have boundary : seeded.numTokens % pool.blockSize = 0 := by rw [numTokens, Nat.mul_mod_left]
  have whole : seeded.numTokens + (total - full * pool.blockSize) = total := by omega
  simp only [growNeed, boundary, ne_eq, not_true_eq_false, if_false, whole]
  omega

theorem prefill_stages {cfg : Config X V L S} {pool : PagedCachePool V} {prefixCache : PrefixCache}
    {rest : Multiset Nat} {req : Request} (pos : 0 < pool.blockSize)
    (layers : pool.numHiddenLayers = cfg.model.numHiddenLayers)
    (bal : Balanced pool.allocator (↑(cachedBlocks prefixCache) + rest)) (inverse : Inverse prefixCache)
    (ne : req.promptTokenIds ≠ [])
    (chain : prefixCache.enabled = true → (hashChain cfg.blockHash pool.blockSize req.promptTokenIds).Nodup)
    (enough : ceilDiv req.promptLen pool.blockSize ≤ pool.allocator.numFree) :
    ∃ matched shared touched seeded logits grown new after next,
      Stages cfg pool prefixCache rest req matched shared touched seeded logits grown new after next := by
  obtain ⟨matched, shared, touched, lookedUp, lookup⟩ :=
    matchPrefix_spec cfg.blockHash req.promptTokenIds.dropLast bal
  have short := matched_short pos ne lookup
  have matchedNodup : matched.Nodup := by
    cases enabled : prefixCache.enabled with
    | true =>
      have chainNodup : (hashChain cfg.blockHash pool.blockSize req.promptTokenIds.dropLast).Nodup := by
        rw [dropLast_eq_take]
        exact nodup_hashChain_take _ pos (chain enabled)
      exact nodup_of_found inverse chainNodup lookup.found
    | false =>
      rw [matchPrefix_disabled enabled] at lookedUp
      simp only [Except.ok.injEq, Prod.mk.injEq] at lookedUp
      rw [← lookedUp.1]
      exact nodup_nil
  obtain ⟨seeded, attached, formed, table, numTokens⟩ := attach_spec pos matchedNodup
  have suffixLength : (req.promptTokenIds.drop (matched.length * pool.blockSize)).length =
      req.promptLen - matched.length * pool.blockSize := by
    simp [Request.promptLen]
  have need : growNeed { pool with allocator := shared } seeded
      (req.promptLen - matched.length * pool.blockSize) ≤ pool.allocator.numFree :=
    (@growNeed_seeded V { pool with allocator := shared } _ _ _ numTokens short).trans enough
  have seededBalanced : Balanced shared (↑seeded.blockTable + (↑(cachedBlocks prefixCache) + rest)) := by
    rw [table]
    exact lookup.balanced
  have sameFree : shared.numFree = pool.allocator.numFree := congrArg List.length lookup.free
  obtain ⟨logits, grown, new, ran, logitsLength, passing⟩ := @paged_forward_total X V L cfg.model
    ({ pool with allocator := shared }, seeded) _ (req.promptTokenIds.drop (matched.length * pool.blockSize))
    (matched.length * pool.blockSize) pos layers seededBalanced formed
    (by rw [suffixLength]; simp only [sameFree]; exact need)
  rw [suffixLength] at passing logitsLength
  have grownBalanced : Balanced grown.1.allocator (↑(cachedBlocks touched) + (↑grown.2.blockTable + rest)) := by
    rw [lookup.cached, add_left_comm]
    exact passing.balanced
  have touchedInverse : Inverse touched := by
    intro block hash
    rw [lookup.byBlock, lookup.blockOf]
    exact inverse block hash
  have sizeEq := passing.shape.blockSize
  obtain ⟨after, next, inserted, registered⟩ := insert_spec cfg.blockHash req.promptTokenIds
    grown.2.blockTable grownBalanced touchedInverse
    (fun block mem => Multiset.mem_add.mpr (.inl (Multiset.mem_coe.mpr mem)))
  rw [sizeEq] at registered
  refine ⟨matched, shared, touched, seeded, logits, grown, new, after, next, lookup, short, formed, table,
    numTokens, ran, logitsLength, passing, need, registered, ?_⟩
  simp only [prefill, lookedUp, attached, ran, inserted, headD_cons]

variable {cfg : Config X V L S} {pool : PagedCachePool V} {prefixCache : PrefixCache} {rest : Multiset Nat}
  {req : Request}

theorem Stages.numTokens_grown {shared : BlockAllocator} {touched : PrefixCache} {seeded : PagedKVCache}
    {grown : Paged V} {after : BlockAllocator}
    (stages : Stages cfg pool prefixCache rest req matched shared touched seeded logits grown new after next) :
    grown.2.numTokens = req.promptLen := by
  have short := stages.short
  rw [stages.passing.numTokens, stages.numTokens]
  omega

theorem prefill_disabled {cache grown : PagedKVCache} (disabled : prefixCache.enabled = false)
    (prefilled : prefill cfg pool prefixCache req cache = .ok (logits, after, next, grown)) :
    next = prefixCache := by
  simp only [prefill, matchPrefix_disabled disabled, insert_disabled disabled] at prefilled
  split at prefilled
  · cases prefilled
  · cases prefilled
  · simp only [Except.ok.injEq, Prod.mk.injEq] at prefilled
    exact prefilled.2.2.1.symm

/-! ## Rows -/

/-- The block holds, in every layer, the rows of block `index` of `tokens`. -/
def HoldsBlock (model : NanoForCausalLM X V L) (pool : PagedCachePool V) (tokens : List Nat) (index block : Nat) :
    Prop :=
  ∀ layer offset, layer < model.numHiddenLayers → offset < pool.blockSize →
    pool.kv layer (block * pool.blockSize + offset) = kvAt model tokens layer (index * pool.blockSize + offset)

/-- Every entry's block holds the rows of a context that occurs and has the entry's key. -/
def EntriesSound (cfg : Config X V L S) (Occurs : List Nat → Prop) (pool : PagedCachePool V)
    (prefixCache : PrefixCache) : Prop :=
  ∀ hash block, blockOf prefixCache hash = some block → ∃ tokens index, Occurs tokens ∧
    (hashChain cfg.blockHash pool.blockSize tokens)[index]? = some hash ∧
    HoldsBlock cfg.model pool tokens index block

/-- A sequence's rows are those of `tokens`. -/
def HoldsRows (model : NanoForCausalLM X V L) (state : Paged V) (tokens : List Nat) : Prop :=
  ∀ layer, layer < model.numHiddenLayers →
    rowsOf state layer = (range state.2.numTokens).map (kvAt model tokens layer)

theorem HoldsRows.kv (holds : HoldsRows model state tokens) {layer position : Nat}
    (inModel : layer < model.numHiddenLayers) (lt : position < state.2.numTokens) :
    state.1.kv layer (address state.1.blockSize state.2.blockTable position) = kvAt model tokens layer position := by
  have read := congrArg (·[position]?) (holds layer inModel)
  simpa [rowsOf, tableRows, lt] using read

theorem HoldsRows.block (holds : HoldsRows model state tokens) (pos : 0 < state.1.blockSize) {block : Nat}
    (full : (index + 1) * state.1.blockSize ≤ state.2.numTokens) (placed : state.2.blockTable[index]? = some block) :
    HoldsBlock model state.1 tokens index block := by
  intro layer offset inModel inBlock
  have lt : index * state.1.blockSize + offset < state.2.numTokens := by
    rw [Nat.add_mul] at full
    omega
  have quotient : (index * state.1.blockSize + offset) / state.1.blockSize = index := by
    rw [Nat.mul_comm, Nat.mul_add_div pos, Nat.div_eq_of_lt inBlock, Nat.add_zero]
  have remainder : (index * state.1.blockSize + offset) % state.1.blockSize = offset := by
    rw [Nat.mul_comm, Nat.mul_add_mod, Nat.mod_eq_of_lt inBlock]
  have read := holds.kv inModel lt
  rw [address, quotient, remainder, getD_eq_getElem?_getD, placed] at read
  exact read

theorem HoldsRows.of_blocks (pos : 0 < state.1.blockSize)
    (covered : state.2.numTokens ≤ state.2.blockTable.length * state.1.blockSize)
    (blocks : ∀ (index : Nat) block, state.2.blockTable[index]? = some block → HoldsBlock model state.1 tokens index block) :
    HoldsRows model state tokens := by
  intro layer inModel
  apply map_congr_left
  intro position mem
  rw [mem_range] at mem
  have inTable : position / state.1.blockSize < state.2.blockTable.length :=
    (Nat.div_lt_iff_lt_mul pos).mpr (by omega)
  have held := blocks _ _ (getElem?_eq_getElem inTable) layer _ inModel (Nat.mod_lt position pos)
  rw [address, getD_eq_getElem _ _ inTable, held, Nat.mul_comm, Nat.div_add_mod]

theorem HoldsBlock.of_keeps {before : PagedCachePool V} {held : Multiset Nat} {block : Nat}
    (holds : HoldsBlock model before tokens index block) (pos : 0 < before.blockSize)
    (sameSize : after.blockSize = before.blockSize) (keeps : Keeps before after held) (mem : block ∈ held) :
    HoldsBlock model after tokens index block := by
  intro layer offset inModel inBlock
  rw [sameSize] at inBlock ⊢
  have quotient : (block * before.blockSize + offset) / before.blockSize = block := by
    rw [Nat.mul_comm, Nat.mul_add_div pos, Nat.div_eq_of_lt inBlock, Nat.add_zero]
  rw [keeps layer _ (by rw [quotient]; exact mem)]
  exact holds layer offset inModel inBlock

theorem EntriesSound.holds (sound : EntriesSound cfg Occurs pool prefixCache) (pos : 0 < pool.blockSize)
    (collisionFree : CollisionFree cfg.blockHash pool.blockSize Occurs) {hash : Int} {block : Nat}
    (registered : blockOf prefixCache hash = some block) (occurs : Occurs tokens)
    (placed : (hashChain cfg.blockHash pool.blockSize tokens)[index]? = some hash) :
    HoldsBlock cfg.model pool tokens index block := by
  obtain ⟨_, _, otherOccurs, otherPlaced, holds⟩ := sound hash block registered
  obtain ⟨rfl, agree⟩ := context_unique collisionFree pos occurs otherOccurs placed otherPlaced
  intro layer offset inModel inBlock
  rw [holds layer offset inModel inBlock]
  apply kvAt_congr
  intro key le
  refine (agree key ?_).symm
  rw [Nat.add_mul]
  omega

theorem matched_sound (pos : 0 < pool.blockSize)
    (collisionFree : CollisionFree cfg.blockHash pool.blockSize Occurs)
    (sound : EntriesSound cfg Occurs pool prefixCache) (occurs : Occurs tokens)
    (found : matched.map some =
      ((hashChain cfg.blockHash pool.blockSize (tokens.take count)).take matched.length).map (blockOf prefixCache))
    {block : Nat} (placed : matched[index]? = some block) : HoldsBlock cfg.model pool tokens index block := by
  have image := congrArg (·[index]?) found
  simp only [getElem?_map, placed, Option.map_some] at image
  obtain ⟨_, hashPlaced, registered⟩ := Option.map_eq_some_iff.mp image.symm
  have inTaken : index < matched.length := (List.getElem?_eq_some_iff.mp placed).1
  rw [getElem?_take_of_lt inTaken] at hashPlaced
  exact sound.holds pos collisionFree registered occurs (hashChain_take pos hashPlaced)

theorem prefill_rows (pos : 0 < pool.blockSize) (layers : pool.numHiddenLayers = cfg.model.numHiddenLayers)
    (bal : Balanced pool.allocator (↑(cachedBlocks prefixCache) + rest)) (inverse : Inverse prefixCache)
    (ne : req.promptTokenIds ≠ [])
    (enough : ceilDiv req.promptLen pool.blockSize ≤ pool.allocator.numFree)
    (collisionFree : CollisionFree cfg.blockHash pool.blockSize Occurs) (occurs : Occurs req.promptTokenIds)
    (sound : EntriesSound cfg Occurs pool prefixCache) {cache : PagedKVCache}
    (result : prefill cfg pool prefixCache req {} = .ok (logits, after, next, cache)) :
    HoldsRows cfg.model (after, cache) req.promptTokenIds ∧
      logits.getLast? = some (logitsAt cfg.model req.promptTokenIds (req.promptLen - 1)) ∧
      EntriesSound cfg Occurs after next := by
  obtain ⟨matched, shared, _, seeded, row, grown, new, _, cached, stages⟩ :=
    prefill_stages pos layers bal inverse ne (fun _ => nodup_hashChain collisionFree occurs) enough
  have resultEq := stages.result.symm.trans result
  simp only [Except.ok.injEq, Prod.mk.injEq] at resultEq
  obtain ⟨rfl, rfl, rfl, rfl⟩ := resultEq
  have short := stages.short
  have lookup := stages.lookup
  rw [dropLast_eq_take] at lookup
  have seededRows : HoldsRows cfg.model ({ pool with allocator := shared }, seeded) req.promptTokenIds := by
    refine HoldsRows.of_blocks pos (stages.wellFormed.numTokens_le pos) ?_
    intro index block placed
    rw [stages.table] at placed
    exact matched_sound pos collisionFree sound occurs lookup.found placed
  -- The pass is the one of `paged_forward_spec`, over the part of the prompt that is not cached.
  let span : Span := ⟨req.promptTokenIds, matched.length * pool.blockSize⟩
  have spanCount : span.count = req.promptLen - matched.length * pool.blockSize := rfl
  have seededBalanced : Balanced shared (↑seeded.blockTable + (↑(cachedBlocks prefixCache) + rest)) := by
    rw [stages.table]
    exact lookup.balanced
  have sameFree : shared.numFree = pool.allocator.numFree := congrArg List.length lookup.free
  obtain ⟨finished, ran, passing⟩ := @paged_forward_spec X V L cfg.model ({ pool with allocator := shared }, seeded) _
    span pos layers seededBalanced stages.wellFormed (by rw [spanCount]; simp only [sameFree]; exact stages.enough)
    (fun layer inModel => by rw [seededRows layer inModel, stages.numTokens])
  have sameRun : (.ok ([row], grown) : Except (Raised (Paged V)) _) =
      .ok ([span.positions.map (logitsAt cfg.model span.tokens)], finished) := by
    rw [← ran, ← stages.ran]
    simp [span, Span.inputs, Span.positions, Span.count]
  obtain ⟨rfl, rfl⟩ := sameRun
  have grownTokens := stages.numTokens_grown
  have grownSize := passing.shape.blockSize
  have rows : HoldsRows cfg.model grown req.promptTokenIds := by
    intro layer inModel
    have visited := passing.visited layer inModel (by rw [layers]; exact inModel)
    rw [visited, seededRows layer inModel, stages.numTokens, grownTokens]
    have whole := span.append_rows cfg.model layer
    rw [Span.start_add_count (Nat.le_of_lt short)] at whole
    exact whole
  refine ⟨rows, ?_, ?_⟩
  · have fedPositive : span.count = span.count - 1 + 1 := by omega
    rw [getLast?_map, Span.positions, fedPositive, range'_concat, getLast?_append]
    simp only [getLast?_singleton, Option.some_or, Option.map_some, Option.some.injEq]
    congr 1
    simp only [span, Span.count, Request.promptLen] at *
    omega
  · intro hash block registered
    rcases stages.registered.new hash block registered with old | new
    · rw [lookup.blockOf] at old
      obtain ⟨tokens, index, tokensOccur, placed, holds⟩ := sound hash block old
      refine ⟨tokens, index, tokensOccur, by rw [grownSize]; exact placed, ?_⟩
      refine holds.of_keeps pos grownSize passing.keeps ?_
      exact Multiset.mem_add.mpr (.inl (mem_cachedBlocks.mpr ⟨hash, old⟩))
    · obtain ⟨index, placed⟩ := mem_iff_getElem?.mp new
      obtain ⟨hashPlaced, blockPlaced⟩ := getElem?_zip_eq_some.mp placed
      refine ⟨req.promptTokenIds, index, occurs, by rw [grownSize]; exact hashPlaced, ?_⟩
      refine rows.block (by rw [grownSize]; exact pos) ?_ blockPlaced
      have inChain := (List.getElem?_eq_some_iff.mp hashPlaced).1
      rw [length_hashChain] at inChain
      rw [grownSize, grownTokens]
      exact (Nat.le_div_iff_mul_le pos).mp inChain

end Nanoserve.Verified
