import Nanoserve.Verified.Blocks
import Nanoserve.Verified.Sequential

/-! # What a sequential step leaves behind

A step that gets past the prefill gives back everything it took.
-/

namespace Nanoserve.Verified

open Engine Model List
open SequentialEngine
open SequentialEngine (serve)

variable {X V L S : Type} {cfg : Config X V L S}

/-! ## Steps -/

/-- The pool's books are right.  Its blocks may be in anybody's hands. -/
def WellKept (model : NanoForCausalLM X V L) : Option (CachePool V) → Prop
  | none => True
  | some (.static pool) => SlotsKept pool
  | some (.paged pool) =>
    0 < pool.blockSize ∧ pool.numHiddenLayers = model.numHiddenLayers ∧ ∃ held, Balanced pool.allocator held

/-- The same slots or blocks are free, and the others are held as before. -/
def SameRoom : Option (CachePool V) → Option (CachePool V) → Prop
  | none, none => True
  | some (.static before), some (.static after) =>
    (∀ slot, slot ∈ after.freeList ↔ slot ∈ before.freeList) ∧ ∀ slot, slot ∈ after.live ↔ slot ∈ before.live
  | some (.paged before), some (.paged after) =>
    after.allocator.refs = before.allocator.refs ∧
      ∀ block, block ∈ after.allocator.free ↔ block ∈ before.allocator.free
  | _, _ => False

/-- The pool is as it was, and the request is at the head of the queue again or the last
one finished. -/
structure LeaksNothing (before : SequentialEngine V S) (request : Request) (after : SequentialEngine V S) : Prop where
  room : SameRoom before.pool after.pool
  accounted : after.waiting = before.waiting ∧ after.finished = before.finished ∨
    after.waiting = before.waiting.tail ∧
      ∃ ended, SameClient request ended ∧ after.finished = before.finished ++ [ended]

/-- What the next request must find. -/
def HasRoom (cfg : Config X V L S) (engine : SequentialEngine V S) (request : Request) : Prop :=
  if engine.useCache then
    match engine.pool with
    | none => request.promptTokenIds ≠ []
    | some (.static pool) =>
      pool.freeList = [] ∨ request.promptTokenIds ≠ [] ∧ request.promptLen + (sampledTokens cfg request.params
        request.promptTokenIds request.params.maxTokens [] engine.rng).length ≤ pool.maxSeqLen
    | some (.paged pool) =>
      pool.allocator.numFree = 0 ∨ request.promptTokenIds ≠ [] ∧ pool.canFit request.promptLen = true
  else request.promptTokenIds ≠ [] ∨ request.params.maxTokens = 0

theorem SameRoom.refl (pool : Option (CachePool V)) : SameRoom pool pool := by
  cases pool with
  | none => trivial
  | some pool =>
    cases pool with
    | static => exact ⟨fun _ => .rfl, fun _ => .rfl⟩
    | paged => exact ⟨rfl, fun _ => .rfl⟩

theorem Balanced.sameRoom {before after : PagedCachePool V} {held : Multiset Nat}
    (first : Balanced before.allocator held) (second : Balanced after.allocator held)
    (blocks : after.allocator.numBlocks = before.allocator.numBlocks) :
    SameRoom (some (.paged before)) (some (.paged after)) := by
  refine ⟨funext fun block => ?_, fun block => ?_⟩
  · rw [first.refs, second.refs]
  · rw [first.free, second.free, blocks]

section Step

variable {eng after : SequentialEngine V S} {request : Request} {waiting : List Request}
  {pool : Option (CachePool V)}

theorem Completes.leaksNothing (completes : Completes { eng with waiting } request pool after)
    (queue : eng.waiting = request :: waiting) (room : SameRoom eng.pool pool) :
    LeaksNothing eng request after := by
  refine ⟨by rw [completes.pool]; exact room, .inr ⟨?_, completes.finished⟩⟩
  rw [completes.waiting, queue]
  rfl

theorem Loses.leaks (loses : Loses { eng with waiting } pool after) (queue : eng.waiting = request :: waiting) :
    ¬LeaksNothing eng request after := by
  intro none
  rcases none.accounted with ⟨waits, -⟩ | ⟨-, _, -, finished⟩
  · rw [loses.waiting, queue] at waits
    exact absurd (congrArg List.length waits) (by simp)
  · rw [loses.finished] at finished
    exact absurd (congrArg List.length finished) (by simp)

structure Stepped (cfg : Config X V L S) (engine : SequentialEngine V S) (request : Request)
    (after : SequentialEngine V S) : Prop where
  decided : LeaksNothing engine request after ↔ HasRoom cfg engine request
  kept : WellKept cfg.model after.pool
  queue : ∀ other ∈ after.waiting, other ∈ engine.waiting

theorem Stepped.back (kept : WellKept cfg.model eng.pool) (room : HasRoom cfg eng request) :
    Stepped cfg eng request eng :=
  ⟨iff_of_true ⟨.refl _, .inl ⟨rfl, rfl⟩⟩ room, kept, fun _ mem => mem⟩

theorem Stepped.served (queue : eng.waiting = request :: waiting)
    (completes : HasRoom cfg eng request →
      ∃ pool, WellKept cfg.model pool ∧ SameRoom eng.pool pool ∧ Completes { eng with waiting } request pool after)
    (loses : ¬HasRoom cfg eng request → ∃ pool, WellKept cfg.model pool ∧ Loses { eng with waiting } pool after) :
    Stepped cfg eng request after := by
  have shorter : ∀ other ∈ waiting, other ∈ eng.waiting := by grind
  by_cases room : HasRoom cfg eng request
  · obtain ⟨pool, kept, same, ends⟩ := completes room
    exact ⟨iff_of_true (ends.leaksNothing queue same) room, ends.pool ▸ kept, ends.waiting ▸ shorter⟩
  · obtain ⟨pool, kept, ends⟩ := loses room
    exact ⟨iff_of_false (ends.leaks queue) room, ends.pool ▸ kept, ends.waiting ▸ shorter⟩

theorem step_static {pool : StaticCachePool V} (cached : eng.useCache = true)
    (static : eng.pool = some (.static pool)) (kept : SlotsKept pool) (queue : eng.waiting = request :: waiting)
    (fresh : request.outputTokenIds = []) :
    Stepped cfg eng request (eng.step cfg).2 := by
  have room : HasRoom cfg eng request ↔ pool.freeList = [] ∨ request.promptTokenIds ≠ [] ∧
      request.promptLen + (sampledTokens cfg request.params request.promptTokenIds request.params.maxTokens []
        eng.rng).length ≤ pool.maxSeqLen := by
    rw [HasRoom, if_pos cached, static]
  cases listed : pool.freeList with
  | nil =>
    have step : eng.step cfg = (.ok [], eng) := by
      simp [SequentialEngine.step, queue, cached, static, StaticCachePool.allocate, listed]
    rw [step]
    exact .back (by rw [static]; exact kept) (room.mpr (.inl listed))
  | cons slot =>
    obtain ⟨taken, allocated, length, takenKept, same⟩ :=
      allocate_slot kept listed (some (request.promptLen + request.params.maxTokens))
    have free : pool.freeList ≠ [] := by grind
    obtain ⟨completes, loses⟩ := @serve_static X V L S cfg { eng with waiting } request fresh taken slot
    rw [length] at completes loses
    have step : eng.step cfg = serve cfg { eng with waiting } (.static cfg.model) (taken, { slot })
        request := by
      simp [SequentialEngine.step, queue, cached, static, allocated]
    rw [step]
    refine .served queue (fun has => ?_) (fun lacks => ?_)
    · obtain ⟨last, books, ends⟩ := completes ((room.mp has).resolve_left free)
      have whole := same.trans books
      refine ⟨some (.static last), kept.congr whole, ?_, ends⟩
      rw [static]
      exact ⟨fun _ => by rw [whole.freeList], fun _ => by rw [whole.live]⟩
    · obtain ⟨last, books, ends⟩ := loses fun fits => lacks (room.mpr (.inr fits))
      refine ⟨some (.static last), ?_, ends⟩
      rcases books with leaked | freed
      · exact takenKept.congr leaked
      · exact kept.congr (same.trans freed)

theorem step_paged {pool : PagedCachePool V} (cached : eng.useCache = true)
    (paged : eng.pool = some (.paged pool)) (pos : 0 < pool.blockSize)
    (layers : pool.numHiddenLayers = cfg.model.numHiddenLayers) {held : Multiset Nat}
    (bal : Balanced pool.allocator held) (queue : eng.waiting = request :: waiting)
    (fresh : request.outputTokenIds = []) : Stepped cfg eng request (eng.step cfg).2 := by
  have room : HasRoom cfg eng request ↔
      pool.allocator.numFree = 0 ∨ request.promptTokenIds ≠ [] ∧ pool.canFit request.promptLen = true := by
    rw [HasRoom, if_pos cached, paged]
  by_cases empty : pool.allocator.numFree = 0
  · have step : eng.step cfg = (.ok [], eng) := by
      simp [SequentialEngine.step, queue, cached, paged, PagedCachePool.allocate, empty]
    rw [step]
    exact .back (by rw [paged]; exact ⟨pos, layers, held, bal⟩) (room.mpr (.inl empty))
  · have step : eng.step cfg = serve cfg { eng with waiting } (.paged cfg.model) (pool, {})
        request := by
      simp [SequentialEngine.step, queue, cached, paged, PagedCachePool.allocate, empty]
    rw [step]
    obtain ⟨completes, loses⟩ := @serve_paged X V L S cfg { eng with waiting } request fresh pool held pos layers bal
    refine .served queue (fun has => ?_) (fun lacks => ?_)
    · obtain ⟨last, shape, released, ends⟩ := completes ((room.mp has).resolve_left empty)
      refine ⟨some (.paged last), ⟨?_, ?_, held, released⟩, ?_, ends⟩
      · rw [shape.blockSize]
        exact pos
      · rw [shape.numHiddenLayers, layers]
      · rw [paged]
        exact bal.sameRoom released shape.numBlocks
    · obtain ⟨last, more, shape, leaked, ends⟩ := loses fun fits => lacks (room.mpr (.inr fits))
      refine ⟨some (.paged last), ⟨?_, ?_, more, leaked⟩, ends⟩
      · rw [shape.blockSize]
        exact pos
      · rw [shape.numHiddenLayers, layers]

theorem step_stepped (kept : WellKept cfg.model eng.pool) (queue : eng.waiting = request :: waiting)
    (fresh : request.outputTokenIds = []) : Stepped cfg eng request (eng.step cfg).2 := by
  cases cached : eng.useCache with
  | false =>
    have room : HasRoom cfg eng request ↔ request.promptTokenIds ≠ [] ∨ request.params.maxTokens = 0 := by
      rw [HasRoom, if_neg (by rw [cached]; decide)]
    obtain ⟨completes, loses⟩ := @serve_uncached X V L S cfg { eng with waiting } request fresh
    have step : eng.step cfg = serve cfg { eng with waiting } (.uncached cfg.model eng.pool)
        (request.promptTokenIds ++ replicate request.params.maxTokens 0) request := by
      simp [SequentialEngine.step, queue, cached]
    rw [step]
    exact .served queue (fun has => ⟨_, kept, .refl _, completes (room.mp has)⟩)
      (fun lacks => ⟨_, kept, loses fun fits => lacks (room.mpr fits)⟩)
  | true =>
    cases stored : eng.pool with
    | none =>
      have room : HasRoom cfg eng request ↔ request.promptTokenIds ≠ [] := by
        rw [HasRoom, if_pos cached, stored]
      obtain ⟨completes, loses⟩ := @serve_dynamic X V L S cfg { eng with waiting } request fresh
      have step : eng.step cfg = serve cfg { eng with waiting } (.dynamic cfg.model) {} request := by
        simp [SequentialEngine.step, queue, cached, stored]
      rw [step]
      refine .served queue (fun has => ⟨none, trivial, ?_, completes (room.mp has)⟩)
        (fun lacks => ⟨none, trivial, loses (not_not.mp fun fits => lacks (room.mpr fits))⟩)
      rw [stored]
      trivial
    | some pool =>
      rw [stored] at kept
      cases pool with
      | static => exact step_static cached stored kept queue fresh
      | paged =>
        obtain ⟨pos, layers, _, bal⟩ := kept
        exact step_paged cached stored pos layers bal queue fresh

end Step

structure Unstarted (model : NanoForCausalLM X V L) (engine : SequentialEngine V S) : Prop where
  kept : WellKept model engine.pool
  fresh : ∀ request ∈ engine.waiting, request.outputTokenIds = []

theorem Unstarted.call {eng : SequentialEngine V S} (unstarted : Unstarted cfg.model eng) (call : SequentialEngine.Call) :
    Unstarted cfg.model (eng.call cfg call) := by
  cases call with
  | addRequest =>
    refine ⟨unstarted.kept, fun request mem => ?_⟩
    rcases mem_append.mp mem with queued | added
    · exact unstarted.fresh request queued
    · rw [mem_singleton.mp added]
  | step =>
    cases queue : eng.waiting with
    | nil =>
      have idle : eng.call cfg .step = eng := by simp [SequentialEngine.call, SequentialEngine.step, queue]
      rw [idle]
      exact unstarted
    | cons request =>
      have went := step_stepped unstarted.kept queue
        (unstarted.fresh request (by rw [queue]; exact mem_cons_self))
      exact ⟨went.kept, fun other mem => unstarted.fresh other (went.queue other mem)⟩

theorem Unstarted.calls {eng : SequentialEngine V S} (unstarted : Unstarted cfg.model eng) (calls : List SequentialEngine.Call) :
    Unstarted cfg.model (calls.foldl (SequentialEngine.call cfg) eng) := by
  induction calls generalizing eng with
  | nil => exact unstarted
  | cons call _ ih => exact ih (unstarted.call call)

/-- Whatever has been done with the engine before, the next step leaks nothing exactly if
its request has room. -/
theorem leaks_nothing_iff (cfg : Config X V L S) (useCache : Bool) (pool : Option (CachePool V))
    (kept : WellKept cfg.model pool) (rng : S) (calls : List SequentialEngine.Call) (request : Request)
    (waiting : List Request) :
    let engine := calls.foldl (SequentialEngine.call cfg) { useCache, pool, rng }
    engine.waiting = request :: waiting →
      (LeaksNothing engine request (engine.step cfg).2 ↔ HasRoom cfg engine request) := by
  intro engine queue
  have unstarted : Unstarted cfg.model engine :=
    Unstarted.calls ⟨kept, fun request member => absurd member List.not_mem_nil⟩ calls
  exact (step_stepped unstarted.kept queue (unstarted.fresh request (by rw [queue]; exact List.mem_cons_self))).decided

/-- A new engine with one request on its queue. -/
def oneRequest (pool : CachePool Nat) (promptTokenIds : List Nat) (maxTokens : Nat) : SequentialEngine Nat Unit :=
  [SequentialEngine.Call.addRequest promptTokenIds { maxTokens } "long"].foldl (SequentialEngine.call counting)
    { pool := some pool, rng := () }

/-- The prompt fills the only block, so that the first token has none. -/
theorem leaks_nothing_iff_preempted :
    WellKept counting.model (some (.paged (.new 1 2 1 0))) ∧
      HasRoom counting (oneRequest (.paged (.new 1 2 1 0)) [1, 2] 3)
        { promptTokenIds := [1, 2], params := { maxTokens := 3 }, requestId := "long" } ∧
      LeaksNothing (oneRequest (.paged (.new 1 2 1 0)) [1, 2] 3)
        { promptTokenIds := [1, 2], params := { maxTokens := 3 }, requestId := "long" }
        ((oneRequest (.paged (.new 1 2 1 0)) [1, 2] 3).step counting).2 ∧
      ((oneRequest (.paged (.new 1 2 1 0)) [1, 2] 3).step counting).2.finished.map Request.finishReason =
        [some .preempted] := by
  have kept : WellKept counting.model (some (.paged (.new 1 2 1 0))) := ⟨Nat.two_pos, rfl, 0, .new 1⟩
  have room : HasRoom counting (oneRequest (.paged (.new 1 2 1 0)) [1, 2] 3)
      { promptTokenIds := [1, 2], params := { maxTokens := 3 }, requestId := "long" } :=
    .inr ⟨List.cons_ne_nil _ _, rfl⟩
  exact ⟨kept, room, (leaks_nothing_iff counting true (some (.paged (.new 1 2 1 0))) kept ()
    [.addRequest [1, 2] { maxTokens := 3 } "long"] _ [] rfl).mpr room, rfl⟩

/-- A prompt of three tokens in a pool with room for two: `step` raises, the request is gone, and so
are the pool's only block or its only slot. The next request, which would fit, goes back to the
queue whenever it is tried. A request that outgrows its slot later on gives it back, but it is gone
too. -/
theorem long_prompt_drains_pool :
    (let engine := oneRequest (.paged (.new 1 2 1 0)) [1, 2, 3] 1
      let after := (engine.step counting).2
      (engine.step counting).1 = .error .outOfBlocks ∧ ¬LeaksNothing engine
        { promptTokenIds := [1, 2, 3], params := { maxTokens := 1 }, requestId := "long" } after ∧
      after.waiting = [] ∧ after.finished = [] ∧
      (∃ pool, after.pool = some (.paged pool) ∧ pool.allocator.free = [] ∧ pool.allocator.refs 0 = 1) ∧
      ((after.addRequest { promptTokenIds := [4], requestId := "short" }).step counting).1 = .ok []) ∧
    (let engine := oneRequest (.static (.new 1 (some 2) 512 0)) [1, 2, 3] 1
      let after := (engine.step counting).2
      (engine.step counting).1 = .error (.runtimeError "sequence exceeded slot capacity: 3 > 2 tokens") ∧
      after.waiting = [] ∧ after.finished = [] ∧
      (∃ pool, after.pool = some (.static pool) ∧ pool.freeList = [] ∧ pool.live = [0]) ∧
      ((after.addRequest { promptTokenIds := [4], requestId := "short" }).step counting).1 = .ok []) ∧
    (let engine := oneRequest (.static (.new 1 (some 2) 512 0)) [1] 3
      let after := (engine.step counting).2
      (engine.step counting).1 = .error (.runtimeError "sequence exceeded slot capacity: 3 > 2 tokens") ∧
      after.waiting = [] ∧ after.finished = [] ∧
      ∃ pool, after.pool = some (.static pool) ∧ pool.freeList = [0] ∧ pool.live = []) := by
  refine ⟨⟨rfl, ?_, rfl, rfl, ⟨_, rfl, rfl, rfl⟩, rfl⟩, ⟨by decide +kernel, rfl, rfl, ⟨_, rfl, rfl, rfl⟩, rfl⟩,
    by decide +kernel, rfl, rfl, _, rfl, rfl, rfl⟩
  intro leaks
  rcases leaks.accounted with ⟨waits, -⟩ | ⟨-, ended, -, finished⟩
  · cases waits
  · cases finished

end Nanoserve.Verified
