import Nanoserve.Verified.Sequential
import Nanoserve.Verified.Blocks

/-! # One result over every cache

The tokens of a request are `sampledTokens`, whatever holds its context.
-/

namespace Nanoserve.Verified

open Engine Model Lib List
open SequentialEngine

variable {σ X V L S : Type} {cfg : Config X V L S}

/-- `step` returns one request, with this output and this `finish_reason`. -/
def Returns (result : Except BaselineError (List Request)) (output : List Nat) (reason : FinishReason) : Prop :=
  ∃ ended, result = .ok [ended] ∧ ended.outputTokenIds = output ∧ ended.finishReason = some reason

theorem Returns.unique {result : Except BaselineError (List Request)} {first second : List Nat} {one other : FinishReason}
    (returns : Returns result first one) (again : Returns result second other) : first = second ∧ one = other := by
  obtain ⟨_, rfl, rfl, ends⟩ := returns
  obtain ⟨_, same, rfl, endsToo⟩ := again
  cases same
  exact ⟨rfl, Option.some.inj (ends.symm.trans endsToo)⟩

structure Samples (cfg : Config X V L S) (request : Request) (rng : S) (room : List Nat → Prop)
    (result : Except BaselineError (List Request)) : Prop where
  returns : let tokens := sampledTokens cfg request.params request.promptTokenIds request.params.maxTokens [] rng
    room tokens → Returns result tokens (if tokens.length = request.params.maxTokens then .length else .eos)
  preempted : ¬room (sampledTokens cfg request.params request.promptTokenIds request.params.maxTokens [] rng) →
    ∀ {output reason}, Returns result output reason → request.promptTokenIds ≠ [] ∧ reason = .preempted

section Served

variable {backend : Backend σ V L} {fits : Nat → Prop} {Holds : List Nat → σ → Prop} {Raised : BaselineError → Prop}
  {Left : σ → Prop} {req : Request} {state : σ}

theorem serve_samples (eng : SequentialEngine V S) (computes : Computes cfg.model backend fits Holds Raised Left)
    (begins : req.promptTokenIds ≠ [] → fits req.promptLen → Begins cfg.model backend Holds req state)
    (refused : ¬(req.promptTokenIds ≠ [] ∧ fits req.promptLen) →
      ∃ raised, backend.prefill req state = .error raised)
    (frees : ∀ {state}, Left state → ∃ last, backend.free state = .ok last)
    (fresh : req.outputTokenIds = []) (unfinished : req.finishReason = none) :
    Samples cfg req eng.rng (fun tokens => req.promptTokenIds ≠ [] ∧ fits (req.promptLen + tokens.length))
      (eng.serve cfg backend state req).1 := by
  by_cases inside : req.promptTokenIds ≠ [] ∧ fits req.promptLen
  · obtain ⟨_, _, prefilled, decodes⟩ := computes.decodes (begins inside.1 inside.2) fresh inside.2 eng.rng
    obtain ⟨last, freed⟩ := frees decodes.left
    simp only [serve, prefilled, freed]
    constructor
    · rintro tokens ⟨-, room⟩
      obtain ⟨stopped, output, reason⟩ := decodes.ends room
      rw [Request.outputLen, fresh, length_nil, Nat.zero_add, unfinished] at reason
      simp only [stopped, finish]
      by_cases all : tokens.length = req.params.maxTokens
      · rw [if_pos all] at reason ⊢
        rw [if_pos reason]
        exact ⟨_, rfl, output, rfl⟩
      · rw [if_neg all] at reason ⊢
        rw [if_neg (by grind)]
        exact ⟨_, rfl, output, reason⟩
    · intro lacks output reason returns
      obtain ⟨raised, stopped, -⟩ := decodes.stops fun room => lacks ⟨inside.1, room⟩
      obtain ⟨ended, result, -, ends⟩ := returns
      simp only [stopped] at result
      cases raised with
      | outOfBlocks =>
        cases result
        exact ⟨inside.1, (Option.some.inj ends).symm⟩
      | runtimeError => cases result
      | indexError => cases result
  · obtain ⟨raised, refused⟩ := refused inside
    simp only [serve, refused]
    refine ⟨fun room => absurd ⟨room.1, computes.shorter (Nat.le_add_right _ _) room.2⟩ inside, fun _ => ?_⟩
    rintro output reason ⟨ended, ⟨⟩, -⟩

end Served

section Requests

variable {eng : SequentialEngine V S} {req : Request} {waiting : List Request}
  (queue : eng.waiting = req :: waiting) (fresh : req.outputTokenIds = [])
  (unfinished : req.finishReason = none)
include queue fresh unfinished

theorem dynamic_samples (cached : eng.useCache = true) (unpooled : eng.pool = none) :
    Samples cfg req eng.rng (fun _ => req.promptTokenIds ≠ [] ∧ True) (eng.step cfg).1 := by
  have went : eng.step cfg = serve cfg { eng with waiting } (.dynamic cfg.model) {} req := by
    simp only [step, queue, cached, unpooled, if_true]
  rw [went]
  exact serve_samples { eng with waiting } (dynamic_computes cfg.model) (fun ne _ => dynamic_begins ne cfg.model)
    (fun lacks => ⟨_, if_pos (by grind)⟩) (fun _ => ⟨_, rfl⟩) fresh unfinished

theorem uncached_returns (uncached : eng.useCache = false) (ne : req.promptTokenIds ≠ []) :
    let tokens := sampledTokens cfg req.params req.promptTokenIds req.params.maxTokens [] eng.rng
    Returns (eng.step cfg).1 tokens (if tokens.length = req.params.maxTokens then .length else .eos) := by
  have went : eng.step cfg = serve cfg { eng with waiting } (.uncached cfg.model eng.pool)
      (req.promptTokenIds ++ replicate req.params.maxTokens 0) req := by
    simp only [step, queue, uncached, Bool.false_eq_true, if_false]
  have short := @sampledTokens_length_le X V L S cfg req.params req.promptTokenIds req.params.maxTokens []
    eng.rng
  rw [went]
  refine (serve_samples { eng with waiting } (uncached_computes cfg.model eng.pool _)
    (fun ne _ => uncached_begins cfg.model eng.pool ne)
    (fun lacks => absurd ⟨ne, Nat.le_add_right _ _⟩ lacks) (fun _ => ⟨_, rfl⟩) fresh unfinished).returns ⟨ne, ?_⟩
  simpa using short

theorem static_samples {pool : StaticCachePool V} (available : pool.freeList ≠ []) (cached : eng.useCache = true)
    (static : eng.pool = some (.static pool)) :
    Samples cfg req eng.rng
      (fun tokens => req.promptTokenIds ≠ [] ∧ req.promptLen + tokens.length ≤ pool.maxSeqLen)
      (eng.step cfg).1 := by
  obtain ⟨slot, _, listed⟩ := exists_cons_of_ne_nil available
  obtain ⟨taken, allocated, same⟩ : ∃ taken, pool.allocate (some (req.promptLen + req.params.maxTokens)) =
      some ({ slot }, taken) ∧ taken.maxSeqLen = pool.maxSeqLen := by
    simp only [StaticCachePool.allocate, listed]
    exact ⟨_, rfl, rfl⟩
  have went : eng.step cfg = serve cfg { eng with waiting } (.static cfg.model) (taken, { slot }) req := by
    simp only [step, queue, cached, static, allocated, if_true]
  rw [went, ← same]
  exact serve_samples { eng with waiting } (static_computes cfg.model taken slot)
    (fun ne room => static_begins ne cfg.model slot room)
    (fun lacks => by
      obtain ⟨_, _, refused, -⟩ := static_refused cfg.model taken slot lacks
      exact ⟨_, refused⟩) (fun _ => ⟨_, rfl⟩) fresh unfinished

theorem paged_samples {pool : PagedCachePool V} {held : Multiset Nat} (pos : 0 < pool.blockSize)
    (layers : pool.numHiddenLayers = cfg.model.numHiddenLayers) (bal : Balanced pool.allocator held)
    (cached : eng.useCache = true) (paged : eng.pool = some (.paged pool)) :
    Samples cfg req eng.rng
      (fun tokens => req.promptTokenIds ≠ [] ∧
        ceilDiv (req.promptLen + tokens.length) pool.blockSize ≤ pool.allocator.numFree) (eng.step cfg).1 := by
  by_cases none : pool.allocator.numFree = 0
  · have went : (eng.step cfg).1 = .ok [] := by
      simp only [step, queue, cached, paged, if_true, PagedCachePool.allocate, none]
    rw [went]
    constructor
    · rintro tokens ⟨ne, room⟩
      rw [none, ceilDiv_le_iff pos, Nat.zero_mul] at room
      have := length_pos_iff.mpr ne
      rw [Request.promptLen] at room
      omega
    · rintro - output reason ⟨ended, ⟨⟩, -⟩
  · have went : eng.step cfg = serve cfg { eng with waiting } (.paged cfg.model) (pool, {}) req := by
      simp only [step, queue, cached, paged, if_true, PagedCachePool.allocate, none, if_false]
    rw [went]
    exact serve_samples { eng with waiting } (paged_computes pos layers held)
      (fun ne room => paged_begins ne pos layers bal room)
      (fun lacks => by
        obtain ⟨_, left, refused, -⟩ := paged_refused pos layers bal lacks
        exact ⟨_, refused⟩)
      (fun left => by
        obtain ⟨last, freed, -⟩ := paged_frees left
        exact ⟨last, freed⟩) fresh unfinished

end Requests

/-- The same engine with no pool, with `use_cache=False`, with slots and with blocks. -/
def overBackends (engine : SequentialEngine V S) (slots : StaticCachePool V) (blocks : PagedCachePool V) :
    List (SequentialEngine V S) :=
  [{ engine with useCache := true, pool := none }, { engine with useCache := false },
    { engine with useCache := true, pool := some (.static slots) },
    { engine with useCache := true, pool := some (.paged blocks) }]

/-- All four give the same output and the same `finish_reason`, `LENGTH` if the output has
`max_tokens` tokens, exactly if there is room for the prompt and every token, also for the last one. -/
theorem backends_agree_iff (cfg : Config X V L S) (engine : SequentialEngine V S) (request : Request)
    (waiting : List Request) (queue : engine.waiting = request :: waiting) (fresh : request.outputTokenIds = [])
    (unfinished : request.finishReason = none) (slots : StaticCachePool V) (available : slots.freeList ≠ [])
    (blocks : PagedCachePool V) (positive : 0 < blocks.blockSize)
    (layers : blocks.numHiddenLayers = cfg.model.numHiddenLayers) (held : Multiset Nat)
    (balanced : Balanced blocks.allocator held) :
    let total := request.promptLen +
      (sampledTokens cfg request.params request.promptTokenIds request.params.maxTokens [] engine.rng).length
    (∃ output reason, (∀ other ∈ overBackends engine slots blocks, Returns (other.step cfg).1 output reason) ∧
        (output.length = request.params.maxTokens → reason = .length)) ↔
      request.promptTokenIds ≠ [] ∧ total ≤ slots.maxSeqLen ∧
        ceilDiv total blocks.blockSize ≤ blocks.allocator.numFree := by
  intro total
  have dynamic := @dynamic_samples X V L S cfg { engine with useCache := true, pool := none } request waiting queue fresh
    unfinished rfl rfl
  have static := @static_samples X V L S cfg { engine with useCache := true, pool := some (.static slots) } request waiting
    queue fresh unfinished slots available rfl rfl
  have paged := @paged_samples X V L S cfg { engine with useCache := true, pool := some (.paged blocks) } request waiting
    queue fresh unfinished blocks held positive layers balanced rfl rfl
  simp only [overBackends, List.forall_mem_cons]
  constructor
  · rintro ⟨output, reason, ⟨first, -, third, fourth, -⟩, -⟩
    by_cases nonempty : request.promptTokenIds ≠ []
    · -- The reason is the one of the growing cache, so neither pool ran out.
      obtain ⟨-, reasonEq⟩ := first.unique (dynamic.returns ⟨nonempty, trivial⟩)
      have ends : reason ≠ .preempted := by
        rw [reasonEq]
        split <;> nofun
      refine ⟨nonempty, ?_, ?_⟩
      · exact by_contra fun lacks => ends (static.preempted (fun room => lacks room.2) third).2
      · exact by_contra fun lacks => ends (paged.preempted (fun room => lacks room.2) fourth).2
    · exact absurd (dynamic.preempted (fun room => nonempty room.1) first).1 nonempty
  · rintro ⟨nonempty, inSlot, inBlocks⟩
    refine ⟨_, _, ⟨dynamic.returns ⟨nonempty, trivial⟩, ?_, static.returns ⟨nonempty, inSlot⟩,
      paged.returns ⟨nonempty, inBlocks⟩, nofun⟩, fun all => if_pos all⟩
    exact uncached_returns queue fresh unfinished rfl nonempty

/-- Two tokens after a prompt of two, in four places. -/
theorem backends_agree_iff_four :
    let engine : SequentialEngine Nat Unit :=
      { waiting := [{ promptTokenIds := [1, 2], params := { maxTokens := 2 }, requestId := "a" }], rng := () }
    ∃ output reason, (∀ other ∈ overBackends engine (.new 1 (some 4) 512 0) (.new 2 2 1 0),
      Returns (other.step counting).1 output reason) ∧ (output.length = 2 → reason = .length) :=
  (backends_agree_iff counting _ { promptTokenIds := [1, 2], params := { maxTokens := 2 }, requestId := "a" } [] rfl rfl rfl
    (.new 1 (some 4) 512 0) (by decide) (.new 2 2 1 0) (by decide) rfl 0 (.new 2)).mpr (by decide +kernel)

/-- The same request with room for its prompt and one token. -/
theorem last_token_needs_room :
    let engine : SequentialEngine Nat Unit :=
      { waiting := [{ promptTokenIds := [1, 2], params := { maxTokens := 2 }, requestId := "a" }], rng := () }
    Returns (engine.step counting).1 [3, 4] .length ∧
      Returns ({ engine with useCache := false }.step counting).1 [3, 4] .length ∧
      ({ engine with pool := some (.static (.new 1 (some 3) 512 0)) }.step counting).1 =
        .error (.runtimeError "sequence exceeded slot capacity: 4 > 3 tokens") ∧
      Returns ({ engine with pool := some (.paged (.new 1 3 1 0)) }.step counting).1 [3, 4] .preempted := by
  exact ⟨⟨_, rfl, rfl, rfl⟩, ⟨_, rfl, rfl, rfl⟩, by decide +kernel, ⟨_, rfl, rfl, rfl⟩⟩

/-! ## A whole queue -/

-- On the remaining iterations: there is a row of logits for the last token that was fed.
theorem generate_total (remaining : Nat) {req : Request} {context : List Nat} {row : List L} {cache : DynamicCache V}
    (rng : S) (holds : Holds cfg.model context cache) (some : row ≠ []) :
    ∃ result, BaselineEngine.generate cfg (DynamicCache.protocol Empty V) req [row] cache rng remaining = .ok result := by
  induction remaining generalizing req context row cache rng with
  | zero => exact ⟨_, rfl⟩
  | succ _ ih =>
    obtain ⟨last, lastRow⟩ := Option.isSome_iff_exists.mp (getLast?_isSome.mpr some)
    simp only [BaselineEngine.generate, BaselineEngine.lastRow, headD_cons, lastRow]
    split
    · exact ⟨_, rfl⟩
    · obtain ⟨_, ran, fed⟩ := @Holds.forward X V L Empty cfg.model context
        [(ContinuousBatchingEngine.sample cfg req.params last rng).1] cache holds
      simp only [ran]
      exact ih _ fed (by simp)

theorem baseline_total (req : Request) (rng : S) (nonempty : req.promptTokenIds ≠ []) :
    ∃ ended cache next, BaselineEngine.step cfg req rng = .ok (ended, cache, next) := by
  obtain ⟨_, ran, fed⟩ := @Holds.forward X V L Empty cfg.model [] req.promptTokenIds {} (.empty cfg.model)
  obtain ⟨⟨ended, cache, next⟩, generated⟩ := @generate_total X V L S cfg req.params.maxTokens req _
    ((range' 0 req.promptTokenIds.length).map (logitsAt cfg.model req.promptTokenIds)) _ rng fed
    (by simpa using nonempty)
  rw [nil_append, length_nil] at ran
  simp only [BaselineEngine.step, BaselineEngine.runRequest, ran, generated]
  exact ⟨_, _, _, rfl⟩

/-- One request by the reference, behind those that it has served. -/
def follow (cfg : Config X V L S) (served : List Request × S) (request : Request) :
    Except (Stopped Empty) (List Request × S) :=
  (BaselineEngine.step cfg request served.2).map fun (ended, _, rng) => (served.1 ++ [ended], rng)

/-- The reference serves every request of the queue, and the engine without a pool, stepped once for
each, has then served them as it does, one after another and in order. -/
theorem drained_as_reference (cfg : Config X V L S) (engine : SequentialEngine V S) (cached : engine.useCache = true)
    (unpooled : engine.pool = none) (nonempty : ∀ request ∈ engine.waiting, request.promptTokenIds ≠ []) :
    ∃ served rng, run (follow cfg) (engine.finished, engine.rng) engine.waiting = .ok (served, rng) ∧
      (replicate engine.waiting.length SequentialEngine.Call.step).foldl (call cfg) engine =
        { engine with waiting := [], finished := served, rng } := by
  generalize queued : engine.waiting = queue at nonempty
  induction queue generalizing engine with
  | nil =>
    obtain ⟨_, _, _, _, _⟩ := engine
    cases queued
    exact ⟨_, _, rfl, rfl⟩
  | cons req rest ih =>
    have filled := nonempty req mem_cons_self
    obtain ⟨ended, _, rng, baseline⟩ := @baseline_total X V L S cfg req engine.rng filled
    have followed : follow cfg (engine.finished, engine.rng) req = .ok (engine.finished ++ [ended], rng) := by
      rw [follow, baseline]
      rfl
    have stepped := step_unpooled cached unpooled queued filled baseline
    rw [length_cons, replicate_succ, foldl_cons, call, stepped, run_cons_ok _ followed]
    exact ih { engine with waiting := rest, finished := engine.finished ++ [ended], rng } cached unpooled rfl
      fun other mem => nonempty other (mem_cons_of_mem _ mem)

/-- Both are served, and the second starts on an empty cache again. -/
theorem drained_as_reference_counting :
    let engine : SequentialEngine Nat Unit := { waiting := [(competing 2 0).request, (competing 2 1).request], rng := () }
    let drained := (replicate 2 SequentialEngine.Call.step).foldl (call counting) engine
    drained.waiting = [] ∧ drained.finished.map Request.outputTokenIds = [[4], [6, 7]] := by
  intro engine drained
  obtain ⟨served, rng, ran, same⟩ := drained_as_reference counting engine rfl rfl (by decide)
  have outputs : Yields (run (follow counting) ([], ()) engine.waiting) fun served =>
      served.1.map Request.outputTokenIds = [[4], [6, 7]] := by decide +kernel
  have drainedEq : drained = _ := same
  have runEq : run (follow counting) ([], ()) engine.waiting = .ok (served, rng) := ran
  rw [runEq, yields_ok] at outputs
  rw [drainedEq]
  exact ⟨rfl, outputs⟩

end Nanoserve.Verified
