import Nanoserve.Engine.Sequential
import Nanoserve.Verified.Chunking
import Nanoserve.Verified.EngineMemory

/-! # A sequential step over each cache

From the prefill on, `step` completes its request or loses it.
-/

namespace Nanoserve.Verified

open Engine Model Lib List
open BaselineEngine (lastRow)
open PagedKVCache (Paged)
open SequentialEngine
open StaticKVCache (Slotted)

variable {ε σ X V L S : Type} {cfg : Config X V L S} {model : NanoForCausalLM X V L}

/-! ## The decode loop -/

/-- What is sampled behind `prompt ++ output`, as a function of the tokens alone. -/
def sampledTokens (cfg : Config X V L S) (params : SamplingParams) (prompt : List Nat) : Nat → List Nat → S → List Nat
  | 0, output, _ => output
  | remaining + 1, output, rng =>
    let (tokenId, rng) := ContinuousBatchingEngine.sample cfg params
      (logitsAt cfg.model (prompt ++ output) ((prompt ++ output).length - 1)) rng
    if tokenId = cfg.eosTokenId ∧ ¬params.ignoreEos then output
    else sampledTokens cfg params prompt remaining (output ++ [tokenId]) rng

theorem length_le_sampledTokens (params : SamplingParams) (prompt : List Nat) (remaining : Nat) (output : List Nat)
    (rng : S) : output.length ≤ (sampledTokens cfg params prompt remaining output rng).length := by
  induction remaining generalizing output rng with
  | zero => exact Nat.le_refl _
  | succ _ ih =>
    simp only [sampledTokens]
    split
    · exact Nat.le_refl _
    · refine Nat.le_trans ?_ (ih _ _)
      simp

theorem sampledTokens_length_le (params : SamplingParams) (prompt : List Nat) (remaining : Nat) (output : List Nat)
    (rng : S) : (sampledTokens cfg params prompt remaining output rng).length ≤ output.length + remaining := by
  induction remaining generalizing output rng with
  | zero => exact Nat.le_refl _
  | succ _ ih =>
    simp only [sampledTokens]
    split
    · exact Nat.le_add_right _ _
    · refine Nat.le_trans (ih _ _) ?_
      rw [length_append, length_singleton]
      omega

section Loop

variable {backend : Backend σ V L} {fits : Nat → Prop} {Holds : List Nat → σ → Prop} {Raised : BaselineError → Prop}
  {Left : σ → Prop} {req : Request} {logits : List (List L)} {state : σ}

structure Computes (model : NanoForCausalLM X V L) (backend : Backend σ V L) (fits : Nat → Prop)
    (Holds : List Nat → σ → Prop) (Raised : BaselineError → Prop) (Left : σ → Prop) : Prop where
  feeds : ∀ {request : Request} {state} tokenId, Holds (request.promptTokenIds ++ request.outputTokenIds) state →
    fits (request.promptLen + request.outputLen + 1) →
    ∃ logits next, backend.feed (request.recordToken tokenId) tokenId state = .ok (logits, next) ∧
      lastRow logits = some (logitsAt model (request.promptTokenIds ++ (request.outputTokenIds ++ [tokenId]))
        (request.promptLen + request.outputLen)) ∧
      Holds (request.promptTokenIds ++ (request.outputTokenIds ++ [tokenId])) next
  refuses : ∀ {request : Request} {state} tokenId, Holds (request.promptTokenIds ++ request.outputTokenIds) state →
    ¬fits (request.promptLen + request.outputLen + 1) →
    ∃ raised left, backend.feed (request.recordToken tokenId) tokenId state = .error (raised, left) ∧ Raised raised ∧
      Left left
  leaves : ∀ {tokens state}, Holds tokens state → Left state
  shorter : ∀ {few many}, few ≤ many → fits many → fits few

structure Decodes (request : Request) (remaining : Nat) (tokens : List Nat) (fits : Nat → Prop)
    (Raised : BaselineError → Prop) (Left : σ → Prop) (decoded : Decoded σ S) : Prop where
  left : Left decoded.state
  client : SameClient request decoded.request
  ends : fits (request.promptLen + tokens.length) → decoded.stopped = none ∧ decoded.request.outputTokenIds = tokens ∧
    decoded.request.finishReason =
      if tokens.length = request.outputLen + remaining then request.finishReason else some .eos
  stops : ¬fits (request.promptLen + tokens.length) → ∃ raised, decoded.stopped = some raised ∧ Raised raised

-- By induction on the remaining tokens: the backend holds the context so far, and the
-- logits at hand are those of its last token.
theorem Computes.generate (computes : Computes cfg.model backend fits Holds Raised Left) (remaining : Nat) (rng : S)
    (holds : Holds (req.promptTokenIds ++ req.outputTokenIds) state)
    (inside : fits (req.promptLen + req.outputLen))
    (last : lastRow logits = some (logitsAt cfg.model (req.promptTokenIds ++ req.outputTokenIds)
      ((req.promptTokenIds ++ req.outputTokenIds).length - 1))) :
    Decodes req remaining
      (sampledTokens cfg req.params req.promptTokenIds remaining req.outputTokenIds rng) fits Raised Left
      (backend.generate cfg req logits state rng remaining) := by
  induction remaining generalizing req logits state rng with
  | zero => exact ⟨computes.leaves holds, .refl _, fun _ => ⟨rfl, rfl, (if_pos rfl).symm⟩, fun exceeds => absurd inside exceeds⟩
  | succ remaining ih =>
    simp only [Backend.generate, last, sampledTokens]
    generalize ContinuousBatchingEngine.sample cfg req.params _ rng = sampled
    by_cases stops : sampled.1 = cfg.eosTokenId ∧ ¬req.params.ignoreEos
    · rw [if_pos stops, if_pos stops]
      refine ⟨computes.leaves holds, ⟨rfl, rfl, rfl⟩, fun _ => ⟨rfl, rfl, ?_⟩, fun exceeds => absurd inside exceeds⟩
      exact (if_neg (by rw [Request.outputLen]; omega)).symm
    · rw [if_neg stops, if_neg stops]
      by_cases room : fits (req.promptLen + req.outputLen + 1)
      · obtain ⟨logits, next, fed, nextLast, nextHolds⟩ := computes.feeds sampled.1 holds room
        have ended := @ih (req.recordToken sampled.1) logits next sampled.2 nextHolds
          (by rw [Request.outputLen_recordToken]; exact room) (by
            rw [Request.outputTokenIds_recordToken, Request.promptTokenIds_recordToken, nextLast]
            simp [Request.promptLen, Request.outputLen])
        simp only [fed]
        refine ⟨ended.left, ⟨ended.client.prompt, ended.client.params, ended.client.requestId⟩, fun fits => ?_, ended.stops⟩
        rw [Nat.add_comm remaining 1, ← Nat.add_assoc, ← Request.outputLen_recordToken req sampled.1]
        exact ended.ends fits
      · -- Every token recorded is fed, so what is sampled from here on is too long.
        have more := @length_le_sampledTokens X V L S cfg req.params req.promptTokenIds remaining
          (req.outputTokenIds ++ [sampled.1]) sampled.2
        obtain ⟨raised, _, fed, allowed, leftHolds⟩ := computes.refuses sampled.1 holds room
        simp only [fed]
        refine ⟨leftHolds, ⟨rfl, rfl, rfl⟩, fun fits => absurd (computes.shorter ?_ fits) room, fun _ => ⟨raised, rfl, allowed⟩⟩
        rw [length_append, length_singleton] at more
        rw [Request.outputLen]
        omega

def Begins (model : NanoForCausalLM X V L) (backend : Backend σ V L) (Holds : List Nat → σ → Prop) (request : Request)
    (start : σ) : Prop :=
  ∃ logits next, backend.prefill request start = .ok (logits, next) ∧
    lastRow logits = some (logitsAt model request.promptTokenIds (request.promptTokenIds.length - 1)) ∧
    Holds request.promptTokenIds next

theorem Computes.decodes (computes : Computes cfg.model backend fits Holds Raised Left)
    (begins : Begins cfg.model backend Holds req state) (fresh : req.outputTokenIds = [])
    (inside : fits req.promptLen) (rng : S) :
    ∃ logits next, backend.prefill req state = .ok (logits, next) ∧
      Decodes req req.params.maxTokens
        (sampledTokens cfg req.params req.promptTokenIds req.params.maxTokens [] rng) fits Raised Left
        (backend.generate cfg req logits next rng req.params.maxTokens) := by
  obtain ⟨logits, next, prefilled, last, holds⟩ := begins
  have generated := Computes.generate computes req.params.maxTokens rng
    (by rw [fresh, append_nil]; exact holds) (by rw [Request.outputLen, fresh]; exact inside)
    (by rw [fresh, append_nil]; exact last)
  rw [fresh] at generated
  exact ⟨logits, next, prefilled, generated⟩

end Loop

/-! ## The backends -/

section Cached

variable {cache : KVCache ε σ V} {fits : Nat → Prop} {Holds : List Nat → σ → Prop} {Raises : ε → Prop}
  {raise : ε → σ → BaselineError × σ} {pool : σ → Option (CachePool V)} {free : σ → Except AllocatorError σ}
  {req : Request} {state : σ} {Left : σ → Prop}

theorem cached_feed {tokenId : Nat} {result : Except ε (List (List L) × σ)}
    (ran : model.forward cache [[tokenId]] none none state = result) :
    (Backend.cached model cache raise pool free).feed req tokenId state =
      result.mapError fun raised => raise raised state := by
  subst ran
  simp only [Backend.cached]
  split <;> simp_all [Except.mapError]

theorem cached_prefill {result : Except ε (List (List L) × σ)} (ne : req.promptTokenIds ≠ [])
    (ran : model.forward cache [req.promptTokenIds] none none state = result) :
    (Backend.cached model cache raise pool free).prefill req state =
      result.mapError fun raised => raise raised state := by
  subst ran
  simp only [Backend.cached, if_neg ne]
  split <;> simp_all [Except.mapError]

variable (caching : Caching model cache fits Holds Raises)
include caching

theorem Caching.computes {Raised : BaselineError → Prop} (leaves : ∀ {tokens state}, Holds tokens state → Left state)
    (translated : ∀ {raised} state, Raises raised → Raised (raise raised state).1 ∧ Left (raise raised state).2) :
    Computes model (.cached model cache raise pool free) fits Holds Raised Left where
  feeds {req state} tokenId holds room := by
    obtain ⟨next, ran, nextHolds⟩ := caching.passes [tokenId] holds (by rw [length_append]; exact room)
    rw [append_assoc] at ran nextHolds
    refine ⟨_, next, cached_feed ran, ?_, nextHolds⟩
    simp [lastRow, Request.promptLen, Request.outputLen]
  refuses {req state} tokenId holds exceeds := by
    obtain ⟨raised, ran, raises⟩ := caching.raises [tokenId] holds (by rw [length_append]; exact exceeds)
    exact ⟨_, _, cached_feed ran, translated state raises⟩
  leaves := leaves
  shorter := caching.shorter

variable (holds : Holds [] state)
include holds

theorem Caching.begins (ne : req.promptTokenIds ≠ []) (room : fits req.promptLen) :
    Begins model (.cached model cache raise pool free) Holds req state := by
  obtain ⟨next, ran, nextHolds⟩ := caching.passes req.promptTokenIds holds (by
    rw [length_nil, Nat.zero_add]
    exact room)
  rw [nil_append] at ran nextHolds
  refine ⟨_, next, cached_prefill ne ran, ?_, nextHolds⟩
  rw [lastRow, headD_cons, getLast?_range'_map _ (length_pos_iff.mpr ne), length_nil, Nat.zero_add]

theorem Caching.refused (starts : Left state) (translated : ∀ {raised} state, Raises raised → Left (raise raised state).2)
    (lacks : ¬(req.promptTokenIds ≠ [] ∧ fits req.promptLen)) :
    ∃ raised left, (Backend.cached model cache raise pool free).prefill req state = .error (raised, left) ∧ Left left := by
  by_cases ne : req.promptTokenIds ≠ []
  · obtain ⟨raised, ran, raises⟩ := caching.raises req.promptTokenIds holds (by
      rw [length_nil, Nat.zero_add]
      exact fun room => lacks ⟨ne, room⟩)
    exact ⟨_, _, cached_prefill ne ran, translated state raises⟩
  · exact ⟨_, _, if_pos (not_not.mp ne), starts⟩

end Cached

theorem dynamic_computes (model : NanoForCausalLM X V L) :
    Computes model (.dynamic model) (fun _ => True) (Holds model) (fun _ => False) (fun _ => True) :=
  (dynamic_caching Empty model).computes (fun _ => trivial) fun _ never => never.elim

theorem static_computes (model : NanoForCausalLM X V L) (pool : StaticCachePool V) (slot : Nat) :
    Computes model (.static model) (· ≤ pool.maxSeqLen) (SlotKeeps model pool slot)
      (fun raised => ∃ message, raised = .runtimeError message) (fun state => SameSlots pool state.1 ∧ state.2.slot = slot) :=
  (static_caching model pool slot).computes (fun keeps => ⟨keeps.books, keeps.same⟩) fun _ raises => ⟨⟨_, rfl⟩, raises⟩

theorem paged_computes {pool : PagedCachePool V} (pos : 0 < pool.blockSize)
    (layers : pool.numHiddenLayers = model.numHiddenLayers) (held : Multiset Nat) :
    Computes model (.paged model) (fun n => ceilDiv n pool.blockSize ≤ pool.allocator.numFree) (PagedHolds model pool held)
      (· = .outOfBlocks) (PagedLeft pool held) :=
  (paged_caching pos layers held).computes (fun holds => holds.toPagedRest.left) fun _ raises => by
    obtain ⟨_, rfl, leftHolds⟩ := raises
    exact ⟨rfl, leftHolds⟩

section Begin

variable {req : Request} (ne : req.promptTokenIds ≠ [])
include ne

theorem dynamic_begins (model : NanoForCausalLM X V L) : Begins model (.dynamic model) (Holds model) req {} :=
  (dynamic_caching Empty model).begins (.empty model) ne trivial

theorem static_begins (model : NanoForCausalLM X V L) {pool : StaticCachePool V} (slot : Nat)
    (room : req.promptLen ≤ pool.maxSeqLen) :
    Begins model (.static model) (SlotKeeps model pool slot) req (pool, { slot }) :=
  (static_caching model pool slot).begins ⟨.empty model pool slot, .refl _, rfl⟩ ne room

theorem paged_begins {pool : PagedCachePool V} {held : Multiset Nat} (pos : 0 < pool.blockSize)
    (layers : pool.numHiddenLayers = model.numHiddenLayers) (bal : Balanced pool.allocator held)
    (room : ceilDiv req.promptLen pool.blockSize ≤ pool.allocator.numFree) :
    Begins model (.paged model) (PagedHolds model pool held) req (pool, {}) :=
  (paged_caching pos layers held).begins (.empty pos model bal) ne room

end Begin

theorem static_refused (model : NanoForCausalLM X V L) {req : Request} (pool : StaticCachePool V) (slot : Nat)
    (lacks : ¬(req.promptTokenIds ≠ [] ∧ req.promptLen ≤ pool.maxSeqLen)) :
    ∃ raised left, (Backend.static model).prefill req (pool, { slot }) = .error (raised, left) ∧
      (SameSlots pool left.1 ∧ left.2.slot = slot) :=
  (static_caching model pool slot).refused ⟨.empty model pool slot, .refl _, rfl⟩ ⟨.refl _, rfl⟩ (fun _ raises => raises) lacks

theorem paged_refused {req : Request} {pool : PagedCachePool V} {held : Multiset Nat} (pos : 0 < pool.blockSize)
    (layers : pool.numHiddenLayers = model.numHiddenLayers) (bal : Balanced pool.allocator held)
    (lacks : ¬(req.promptTokenIds ≠ [] ∧ ceilDiv req.promptLen pool.blockSize ≤ pool.allocator.numFree)) :
    ∃ raised left, (Backend.paged model).prefill req (pool, {}) = .error (raised, left) ∧ PagedLeft pool held left := by
  have empty := PagedHolds.empty pos model bal
  refine (paged_caching pos layers held).refused empty empty.toPagedRest.left (fun _ raises => ?_) lacks
  obtain ⟨left, rfl, leftHolds⟩ := raises
  exact leftHolds

theorem paged_frees {pool : PagedCachePool V} {held : Multiset Nat} {state : Paged V} (left : PagedLeft pool held state) :
    ∃ last, (Backend.paged model).free state = .ok last ∧ SameShape pool last.1 ∧ Balanced last.1.allocator held := by
  obtain ⟨_, freed, released, blocks, -⟩ := free_spec left.balanced
  exact ⟨_, freed, left.shape.trans ⟨rfl, rfl, blocks⟩, released⟩

theorem noCache_forward (ε : Type) (model : NanoForCausalLM X V L) (tokens : List Nat) :
    model.forward (Backend.noCache ε V) [tokens] none none () =
      .ok ([(range' 0 tokens.length).map (logitsAt model tokens)], ()) := by
  let span : Span := ⟨tokens, 0⟩
  have serves : ∀ (layer : Nat) (state : Unit), layer < model.numHiddenLayers → True →
      ∃ next, Serves model (Backend.noCache ε V) none [span] layer state next ∧ True := by
    intro layer _ _ _
    refine ⟨(), .single ?_, trivial⟩
    rw [← span.append_rows]
    rfl
  obtain ⟨_, ran, -⟩ := forward_spec serves trivial
  simp only [map_cons, map_nil, span, Span.inputs, Span.positions, Span.count, drop_zero, Nat.sub_zero] at ran
  exact ran

def Buffered (capacity : Nat) (tokens buffer : List Nat) : Prop :=
  buffer.length = capacity ∧ buffer.take tokens.length = tokens

theorem uncached_computes (model : NanoForCausalLM X V L) (pool : Option (CachePool V)) (capacity : Nat) :
    Computes model (.uncached model pool) (· ≤ capacity) (Buffered capacity) (· = .indexError) (fun _ => True) where
  feeds {req buffer} tokenId holds room := by
    obtain ⟨length, begins⟩ := holds
    have count : (req.promptTokenIds ++ (req.outputTokenIds ++ [tokenId])).length =
        req.promptLen + req.outputLen + 1 := by simp [Request.promptLen, Request.outputLen, Nat.add_assoc]
    have lt := length ▸ room
    have written : (buffer.set (req.promptLen + req.outputLen) tokenId).take
        (req.promptLen + req.outputLen + 1) = req.promptTokenIds ++ (req.outputTokenIds ++ [tokenId]) := by
      rw [length_append] at begins
      rw [take_add_one, take_set_of_le (Nat.le_refl _), getElem?_set_self lt, ← append_assoc]
      exact congrArg (· ++ [tokenId]) begins
    have ran := noCache_forward (BaselineError × List Nat) model
      (req.promptTokenIds ++ (req.outputTokenIds ++ [tokenId]))
    have fed : (Backend.uncached model pool).feed (req.recordToken tokenId) tokenId buffer =
        .ok ([(range' 0 (req.promptLen + req.outputLen + 1)).map
          (logitsAt model (req.promptTokenIds ++ (req.outputTokenIds ++ [tokenId])))],
          buffer.set (req.promptLen + req.outputLen) tokenId) := by
      have stop : (req.recordToken tokenId).promptLen + (req.recordToken tokenId).outputLen =
          req.promptLen + req.outputLen + 1 := by
        rw [Request.outputLen_recordToken]
        rfl
      simp only [Backend.uncached, stop, Nat.add_sub_cancel, if_neg (Nat.not_le.mpr lt), written, ran, count]
    refine ⟨_, _, fed, ?_, by rw [length_set, length], by rw [count, written]⟩
    rw [lastRow, headD_cons, getLast?_range'_map _ (Nat.succ_pos _), Nat.zero_add]
    rfl
  refuses {req buffer} tokenId holds exceeds := by
    have full : buffer.length ≤ (req.recordToken tokenId).promptLen + (req.recordToken tokenId).outputLen - 1 := by
      rw [Request.outputLen_recordToken, holds.1]
      exact Nat.le_of_not_lt exceeds
    exact ⟨_, buffer, if_pos full, rfl, trivial⟩
  leaves _ := trivial
  shorter := Nat.le_trans

theorem uncached_begins (model : NanoForCausalLM X V L) (pool : Option (CachePool V)) {req : Request}
    (ne : req.promptTokenIds ≠ []) :
    Begins model (.uncached model pool) (Buffered (req.promptLen + req.params.maxTokens)) req
      (req.promptTokenIds ++ replicate req.params.maxTokens 0) := by
  have ran := noCache_forward (BaselineError × List Nat) model req.promptTokenIds
  refine ⟨[(range' 0 req.promptTokenIds.length).map (logitsAt model req.promptTokenIds)],
    req.promptTokenIds ++ replicate req.params.maxTokens 0, ?_, ?_, ?_, ?_⟩
  · simp only [Backend.uncached, Request.promptLen, take_left, ran]
  · rw [lastRow, headD_cons, getLast?_range'_map _ (length_pos_iff.mpr ne), Nat.zero_add]
  · rw [length_append, length_replicate]
    rfl
  · exact take_left

/-! ## Two ways to end -/

structure Completes (engine : SequentialEngine V S) (request : Request) (pool : Option (CachePool V))
    (after : SequentialEngine V S) : Prop where
  useCache : after.useCache = engine.useCache
  waiting : after.waiting = engine.waiting
  finished : ∃ ended, SameClient request ended ∧ after.finished = engine.finished ++ [ended]
  pool : after.pool = pool

structure Loses (engine : SequentialEngine V S) (pool : Option (CachePool V)) (after : SequentialEngine V S) : Prop where
  useCache : after.useCache = engine.useCache
  waiting : after.waiting = engine.waiting
  finished : after.finished = engine.finished
  pool : after.pool = pool

section Serve

variable {eng : SequentialEngine V S} {backend : Backend σ V L} {req : Request} {state next last left : σ}
  {logits : List (List L)} {decoded : Decoded σ S} {raised : BaselineError}

theorem finish_completes {ended : Request} (same : SameClient req ended) :
    Completes eng req eng.pool (eng.finish ended).2 := by
  refine ⟨rfl, rfl, ⟨_, ?_, rfl⟩, rfl⟩
  split
  · exact ⟨same.prompt, same.params, same.requestId⟩
  · exact same

theorem serve_refused (refused : backend.prefill req state = .error (raised, left)) :
    Loses eng (backend.pool left) (eng.serve cfg backend state req).2 := by
  simp only [serve, refused]
  exact ⟨rfl, rfl, rfl, rfl⟩

variable (prefilled : backend.prefill req state = .ok (logits, next))
  (generated : backend.generate cfg req logits next eng.rng req.params.maxTokens = decoded)
  (freed : backend.free decoded.state = .ok last)
include prefilled generated freed

theorem serve_completes (same : SameClient req decoded.request)
    (handled : ∀ raised, decoded.stopped = some raised → raised = .outOfBlocks) :
    Completes eng req (backend.pool last) (eng.serve cfg backend state req).2 := by
  simp only [serve, prefilled, generated, freed]
  cases stopped : decoded.stopped with
  | none =>
    have completes := @finish_completes V S { eng with rng := decoded.rng, pool := backend.pool last } req
      decoded.request same
    exact ⟨completes.useCache, completes.waiting, completes.finished, completes.pool⟩
  | some raised =>
    obtain rfl := handled raised stopped
    exact ⟨rfl, rfl, ⟨decoded.request.finish .preempted, ⟨same.prompt, same.params, same.requestId⟩, rfl⟩, rfl⟩

theorem serve_raises (stopped : decoded.stopped = some raised) (unhandled : raised ≠ .outOfBlocks) :
    Loses eng (backend.pool last) (eng.serve cfg backend state req).2 := by
  simp only [serve, prefilled, generated, freed, stopped]
  cases raised with
  | outOfBlocks => exact absurd rfl unhandled
  | runtimeError => exact ⟨rfl, rfl, rfl, rfl⟩
  | indexError => exact ⟨rfl, rfl, rfl, rfl⟩

end Serve

section Served

variable {backend : Backend σ V L} {fits : Nat → Prop} {Holds : List Nat → σ → Prop} {Raised : BaselineError → Prop}
  {Left Freed : σ → Prop} {req : Request} {state : σ} (eng : SequentialEngine V S)
  (computes : Computes cfg.model backend fits Holds Raised Left) (begins : Begins cfg.model backend Holds req state)
  (fresh : req.outputTokenIds = []) (inside : fits req.promptLen)
  (frees : ∀ {state}, Left state → ∃ last, backend.free state = .ok last ∧ Freed last)
include computes begins fresh inside frees

theorem Computes.completes
    (handled : fits (req.promptLen + (sampledTokens cfg req.params req.promptTokenIds req.params.maxTokens []
      eng.rng).length) ∨ ∀ raised, Raised raised → raised = .outOfBlocks) :
    ∃ last, Freed last ∧ Completes eng req (backend.pool last) (eng.serve cfg backend state req).2 := by
  obtain ⟨_, _, prefilled, decodes⟩ := computes.decodes begins fresh inside eng.rng
  obtain ⟨last, freed, holds⟩ := frees decodes.left
  refine ⟨last, holds, serve_completes prefilled rfl freed decodes.client fun raised stopped => ?_⟩
  rcases Classical.em (fits (req.promptLen + (sampledTokens cfg req.params req.promptTokenIds
    req.params.maxTokens [] eng.rng).length)) with room | exceeds
  · rw [(decodes.ends room).1] at stopped
    cases stopped
  · obtain ⟨_, stoppedToo, allowed⟩ := decodes.stops exceeds
    rw [stopped] at stoppedToo
    cases stoppedToo
    exact handled.resolve_left exceeds raised allowed

theorem Computes.loses
    (exceeds : ¬fits (req.promptLen + (sampledTokens cfg req.params req.promptTokenIds req.params.maxTokens []
      eng.rng).length)) (unhandled : ∀ raised, Raised raised → raised ≠ .outOfBlocks) :
    ∃ last, Freed last ∧ Loses eng (backend.pool last) (eng.serve cfg backend state req).2 := by
  obtain ⟨_, _, prefilled, decodes⟩ := computes.decodes begins fresh inside eng.rng
  obtain ⟨last, freed, holds⟩ := frees decodes.left
  obtain ⟨raised, stopped, allowed⟩ := decodes.stops exceeds
  exact ⟨last, holds, serve_raises prefilled rfl freed stopped (unhandled raised allowed)⟩

end Served

theorem generate_agrees {ε : Type} {cache : KVCache ε σ V} {raise : ε → σ → BaselineError × σ}
    {pool : σ → Option (CachePool V)} {free : σ → Except AllocatorError σ} (remaining : Nat) {req ended : Request}
    {logits : List (List L)} {state last : σ} {rng next : S}
    (ran : BaselineEngine.generate cfg cache req logits state rng remaining = .ok (ended, last, next)) :
    (Backend.cached cfg.model cache raise pool free).generate cfg req logits state rng remaining =
      { request := ended, state := last, rng := next } := by
  induction remaining generalizing req logits state rng with
  | zero =>
    cases ran
    rfl
  | succ _ ih =>
    rw [BaselineEngine.generate] at ran
    cases rowEq : lastRow logits with
    | none =>
      simp only [rowEq] at ran
      cases ran
    | some =>
      simp only [rowEq] at ran
      simp only [Backend.generate, rowEq]
      split at ran
      case isTrue stops =>
        rw [if_pos stops]
        cases ran
        rfl
      case isFalse goesOn =>
        rw [if_neg goesOn]
        split at ran
        case h_1 => cases ran
        case h_2 fed =>
          simp only [Backend.cached, fed]
          exact ih ran

theorem step_unpooled {eng : SequentialEngine V S} {req ended : Request} {waiting : List Request}
    {cache : DynamicCache V} {rng : S} (cached : eng.useCache = true) (unpooled : eng.pool = none)
    (queue : eng.waiting = req :: waiting) (ne : req.promptTokenIds ≠ [])
    (ran : BaselineEngine.step cfg req eng.rng = .ok (ended, cache, rng)) :
    eng.step cfg = (.ok [ended], { eng with waiting, finished := eng.finished ++ [ended], rng }) := by
  rw [BaselineEngine.step, BaselineEngine.runRequest] at ran
  split at ran
  case h_1 => cases ran
  case h_2 _ _ prefilled =>
    split at ran
    case h_1 => cases ran
    case h_2 _ _ _ generated =>
      cases ran
      have loop := @generate_agrees _ X V L S cfg Empty _ (fun raised _ => raised.elim) (fun _ => none) .ok _ _ _ _ _ _ _ _
        generated
      simp only [SequentialEngine.step, queue, cached, unpooled, if_true, serve, Backend.dynamic, Backend.cached,
        if_neg ne, prefilled]
      simp only [Backend.cached] at loop
      rw [loop]
      rfl

/-- A slot is free or taken, and in the free list once. -/
structure SlotsKept (pool : StaticCachePool V) : Prop where
  nodup : pool.freeList.Nodup
  disjoint : ∀ slot ∈ pool.freeList, slot ∉ pool.live

theorem SlotsKept.congr {before after : StaticCachePool V} (kept : SlotsKept before) (same : SameSlots before after) :
    SlotsKept after :=
  ⟨same.freeList ▸ kept.nodup, by rw [same.freeList, same.live]; exact kept.disjoint⟩

theorem SameSlots.free {before after : StaticCachePool V} (same : SameSlots before after) {first second : StaticKVCache}
    (slot : second.slot = first.slot) : SameSlots (before.free first) (after.free second) := by
  rw [StaticCachePool.free, StaticCachePool.free, same.live, slot]
  split
  · exact ⟨same.maxSeqLen, congrArg (cons first.slot) same.freeList, rfl⟩
  · exact same

theorem allocate_slot {pool : StaticCachePool V} (kept : SlotsKept pool) {slot : Nat} {freeList : List Nat}
    (listed : pool.freeList = slot :: freeList) (expectedLen : Option Nat) :
    ∃ taken, pool.allocate expectedLen = some ({ slot }, taken) ∧ taken.maxSeqLen = pool.maxSeqLen ∧ SlotsKept taken ∧
      SameSlots pool (taken.free { slot }) := by
  have absent : slot ∉ pool.live := kept.disjoint slot (by rw [listed]; exact mem_cons_self)
  have distinct := kept.nodup
  rw [listed, nodup_cons] at distinct
  refine ⟨{ pool with
    freeList
    live := pool.live ++ [slot]
    expected := pool.expected.set slot (min (orDefault expectedLen pool.maxSeqLen) pool.maxSeqLen) },
    ?_, rfl, ⟨distinct.2, ?_⟩, ?_⟩
  · simp only [StaticCachePool.allocate, listed, if_neg absent]
  · intro other free live
    have notLive := kept.disjoint other (by rw [listed]; exact mem_cons_of_mem _ free)
    rcases mem_append.mp live with before | here
    · exact notLive before
    · exact distinct.1 (mem_singleton.mp here ▸ free)
  · rw [StaticCachePool.free, if_pos (mem_append_right _ mem_cons_self)]
    refine ⟨rfl, listed.symm, ?_⟩
    rw [erase_append_right _ absent, erase_cons_head, append_nil]


section Requests

variable (eng : SequentialEngine V S) {req : Request} (fresh : req.outputTokenIds = [])
include fresh

theorem serve_dynamic :
    (req.promptTokenIds ≠ [] →
      Completes eng req none (eng.serve cfg (.dynamic cfg.model) {} req).2) ∧
    (req.promptTokenIds = [] → Loses eng none (eng.serve cfg (.dynamic cfg.model) {} req).2) := by
  refine ⟨fun ne => ?_, fun empty => ?_⟩
  · obtain ⟨_, -, completes⟩ := Computes.completes eng
      (dynamic_computes cfg.model) (dynamic_begins ne cfg.model) fresh trivial (fun _ => ⟨_, rfl, trivial⟩) (.inl trivial)
    exact completes
  · exact @serve_refused _ X V L S cfg eng (.dynamic cfg.model) req {} {} _ (if_pos empty)

theorem serve_uncached :
    let buffer := req.promptTokenIds ++ replicate req.params.maxTokens 0
    let after := (eng.serve cfg (.uncached cfg.model eng.pool) buffer req).2
    (req.promptTokenIds ≠ [] ∨ req.params.maxTokens = 0 → Completes eng req eng.pool after) ∧
    (¬(req.promptTokenIds ≠ [] ∨ req.params.maxTokens = 0) → Loses eng eng.pool after) := by
  intro buffer after
  have emptied (none : req.promptTokenIds = []) :
      (Backend.uncached cfg.model eng.pool).prefill req buffer = .ok ([[]], buffer) := by
    have ran := noCache_forward (BaselineError × List Nat) cfg.model []
    simp only [Backend.uncached, Request.promptLen, none, length_nil, take_zero, ran, range'_zero, map_nil]
  constructor
  · intro either
    by_cases ne : req.promptTokenIds ≠ []
    · have short := @sampledTokens_length_le X V L S cfg req.params req.promptTokenIds req.params.maxTokens []
        eng.rng
      obtain ⟨_, -, completes⟩ := Computes.completes eng
        (uncached_computes cfg.model eng.pool (req.promptLen + req.params.maxTokens))
        (uncached_begins cfg.model eng.pool ne) fresh (Nat.le_add_right _ _) (fun _ => ⟨_, rfl, trivial⟩)
        (.inl (by simpa using short))
      exact completes
    · have zero := either.resolve_left ne
      refine serve_completes (emptied (not_not.mp ne)) (by rw [zero]) rfl (.refl _) ?_
      rintro _ ⟨⟩
  · intro neither
    obtain ⟨none, pos⟩ := not_or.mp neither
    obtain ⟨_, remainingEq⟩ := Nat.exists_eq_succ_of_ne_zero pos
    have generated : (Backend.uncached cfg.model eng.pool).generate cfg req [[]] buffer eng.rng
        req.params.maxTokens = { request := req, state := buffer, rng := eng.rng, stopped := some .indexError } := by
      rw [remainingEq]
      rfl
    exact serve_raises (emptied (not_not.mp none)) generated rfl rfl (by rintro ⟨⟩)

theorem serve_paged {pool : PagedCachePool V} {held : Multiset Nat}
    (pos : 0 < pool.blockSize) (layers : pool.numHiddenLayers = cfg.model.numHiddenLayers)
    (bal : Balanced pool.allocator held) :
    let after := (eng.serve cfg (.paged cfg.model) (pool, {}) req).2
    (req.promptTokenIds ≠ [] ∧ pool.canFit req.promptLen = true →
      ∃ last, SameShape pool last ∧ Balanced last.allocator held ∧ Completes eng req (some (.paged last)) after) ∧
    (¬(req.promptTokenIds ≠ [] ∧ pool.canFit req.promptLen = true) →
      ∃ last more, SameShape pool last ∧ Balanced last.allocator more ∧ Loses eng (some (.paged last)) after) := by
  intro after
  have need : pool.canFit req.promptLen = true ↔ ceilDiv req.promptLen pool.blockSize ≤ pool.allocator.numFree := by
    rw [PagedCachePool.canFit, decide_eq_true_iff]
  rw [need]
  constructor
  · rintro ⟨ne, fits⟩
    obtain ⟨last, ⟨shape, released⟩, completes⟩ := (paged_computes pos layers held).completes eng
      (paged_begins ne pos layers bal fits) fresh fits paged_frees (.inr fun _ => id)
    exact ⟨last.1, shape, released, completes⟩
  · intro lacks
    obtain ⟨_, left, refused, leftHolds⟩ := paged_refused pos layers bal lacks
    exact ⟨left.1, _, leftHolds.shape, leftHolds.balanced, serve_refused refused⟩

theorem serve_static (taken : StaticCachePool V) (slot : Nat) :
    let tokens := sampledTokens cfg req.params req.promptTokenIds req.params.maxTokens [] eng.rng
    let after := (eng.serve cfg (.static cfg.model) (taken, { slot }) req).2
    (req.promptTokenIds ≠ [] ∧ req.promptLen + tokens.length ≤ taken.maxSeqLen →
      ∃ last, SameSlots (taken.free { slot }) last ∧ Completes eng req (some (.static last)) after) ∧
    (¬(req.promptTokenIds ≠ [] ∧ req.promptLen + tokens.length ≤ taken.maxSeqLen) →
      ∃ last, (SameSlots taken last ∨ SameSlots (taken.free { slot }) last) ∧
        Loses eng (some (.static last)) after) := by
  intro tokens after
  have computes := static_computes cfg.model taken slot
  have frees {state : Slotted V} (left : SameSlots taken state.1 ∧ state.2.slot = slot) :
      ∃ last, (Backend.static cfg.model).free state = .ok last ∧ SameSlots (taken.free { slot }) last.1 :=
    ⟨_, rfl, left.1.free left.2⟩
  by_cases fits : req.promptTokenIds ≠ [] ∧ req.promptLen ≤ taken.maxSeqLen
  · have begins := static_begins fits.1 cfg.model slot fits.2
    constructor
    · intro room
      obtain ⟨last, books, completes⟩ := computes.completes eng begins fresh fits.2 frees (.inl room.2)
      exact ⟨last.1, books, completes⟩
    · intro lacks
      obtain ⟨last, books, loses⟩ := computes.loses eng begins fresh fits.2 frees (fun room => lacks ⟨fits.1, room⟩)
        (by rintro _ ⟨message, rfl⟩ ⟨⟩)
      exact ⟨last.1, .inr books, loses⟩
  · refine ⟨fun room => absurd ⟨room.1, Nat.le_trans (Nat.le_add_right _ _) room.2⟩ fits, fun _ => ?_⟩
    obtain ⟨_, left, refused, books⟩ := static_refused cfg.model taken slot fits
    exact ⟨left.1, .inl books.1, serve_refused refused⟩

end Requests

end Nanoserve.Verified
