import Nanoserve.Verified.Blocks
import Nanoserve.Verified.Passes

/-! # What `_admit` leaves behind

The loop pops a front part of the queue and stops.
-/

namespace Nanoserve.Verified

open Engine Lib Function
open ContinuousBatchingEngine

variable {X V L S : Type} {cfg : Config X V L S}
variable {req : Nat} {ended : List Nat} {newSeqs : List Sequence} {base : Machine V S}

/-! ## What the loop pops -/

structure Popped (queue : List Nat) (admitted : List Sequence) (done : List Nat) (newSeqs : List Sequence)
    (ended : List Nat) (next : EngineState V S) (taken : List Nat) : Prop where
  front : queue = taken ++ next.waiting
  joined : ∃ started, newSeqs = admitted ++ started ∧ (started.map Sequence.request).Sublist taken
  left : ∃ retired, ended = done ++ retired ∧ retired.Sublist taken
  room : taken ≠ [] → (next.running ++ newSeqs).length ≤ next.pool.allocator.numFree

theorem Popped.nothing {eng : EngineState V S} (admitted : List Sequence) (done : List Nat) :
    Popped eng.waiting admitted done admitted done eng [] :=
  ⟨rfl, ⟨[], by simp, .slnil⟩, ⟨[], by simp, .slnil⟩, fun some => absurd rfl some⟩

theorem Popped.cons {queue taken done last : List Nat} {eng after next : EngineState V S}
    {admitted allSeqs : List Sequence} (takes : Takes req eng admitted after newSeqs)
    (listed : newSeqs = admitted ∧ ended = done ++ [req] ∨ newSeqs ≠ admitted ∧ ended = done)
    (room : (next.running ++ allSeqs).length ≤ next.pool.allocator.numFree)
    (popped : Popped queue newSeqs ended allSeqs last next taken) :
    Popped (req :: queue) admitted done allSeqs last next (req :: taken) := by
  obtain ⟨started, seqsEq, order⟩ := popped.joined
  obtain ⟨retired, endedEq, endedOrder⟩ := popped.left
  cases takes with
  | ended =>
    have doneEq : ended = done ++ [req] := by grind
    exact ⟨by rw [popped.front, List.cons_append], ⟨started, seqsEq, order.cons _⟩,
      ⟨req :: retired, by rw [endedEq, doneEq]; simp, endedOrder.cons_cons _⟩, fun _ => room⟩
  | @joined seq token named =>
    have doneEq : ended = done := by
      rcases listed with ⟨same, -⟩ | ⟨-, same⟩
      · simp at same
      · exact same
    refine ⟨by rw [popped.front, List.cons_append], ⟨seq :: started, by rw [seqsEq]; simp, ?_⟩,
      ⟨retired, by rw [endedEq, doneEq], endedOrder.cons _⟩, fun _ => room⟩
    grind

-- By induction over the queue; `admitLoop_cons` is one round.
theorem admitLoop_popped (base : Machine V S) (queue : List Nat) {eng next : EngineState V S}
    {admitted : List Sequence} {done : List Nat}
    (stock : Stock cfg (base.admitting eng admitted queue))
    (result : admitLoop cfg eng admitted done queue = .ok (newSeqs, ended, next)) :
    ∃ taken, Popped queue admitted done newSeqs ended next taken := by
  induction queue generalizing eng admitted done with
  | nil =>
    simp only [admitLoop, Except.ok.injEq, Prod.mk.injEq] at result
    obtain ⟨rfl, rfl, rfl⟩ := result
    exact ⟨[], @Popped.nothing V S { eng with waiting := [] } admitted done⟩
  | cons req queue ih =>
    rcases @admitLoop_cons X V L S cfg base eng admitted done req queue stock with
      ⟨pool, prefixCache, stopped, -, -, -⟩ |
      ⟨after, afterSeqs, afterEnded, popped, takes, listed, roomAfter, -, steps⟩
    · rw [stopped] at result
      simp only [Except.ok.injEq, Prod.mk.injEq] at result
      obtain ⟨rfl, rfl, rfl⟩ := result
      exact ⟨[], @Popped.nothing V S { eng with pool, prefixCache, waiting := req :: queue } admitted done⟩
    · have afterStock := stock.reaches steps
      have rest := popped.symm.trans result
      obtain ⟨taken, behind⟩ := ih afterStock rest
      have room := (admitLoop_admits base queue afterStock rest).room (.inl roomAfter)
      exact ⟨req :: taken, behind.cons takes listed room⟩

/-- In every state a run reaches: if the admission of a step starts anybody at all, a block is free
for every sequence of the batch and the step preempts nobody. -/
theorem admission_spares_the_batch (cfg : Config X V L S) (numBlocks blockSize : Nat) (enablePrefixCache : Bool) (zero : V)
    (clients : Nat → Submission) (rng : S) (positive : 0 < blockSize) (calls : List Call) :
    ∃ session cancelled engine newSeqs done next,
      (Session.new cfg numBlocks blockSize enablePrefixCache zero clients rng).after cfg calls = .ok session ∧
      applyCancellations cfg session.engine = .ok (cancelled, engine) ∧
      admitRequests cfg engine = .ok (newSeqs, done, next) ∧
      (newSeqs ≠ [] ∨ done ≠ [] →
        (next.running ++ newSeqs).length ≤ next.pool.allocator.numFree ∧
        (∃ prepared, BatchedPagedCache.prepare next.pool (next.running ++ newSeqs) = .ok prepared) ∧
        Yields (step cfg session.engine) fun stepped => stepped.2.preemptions = session.engine.preemptions) := by
  have booted := @Stock.new X V L S cfg numBlocks blockSize enablePrefixCache zero clients rng positive
  obtain ⟨machine, ran, idle, steps, -⟩ := run_steps booted rfl calls
  have stock := booted.reaches steps
  obtain ⟨cancelled, engine, newSeqs, done, next, applied, admitted, scheduled, first, more⟩ := schedule_parts stock idle
  refine ⟨machine.session, cancelled, engine, newSeqs, done, next, ran, applied, admitted, ?_⟩
  intro prefilled
  obtain ⟨taken, popped⟩ := admitLoop_popped machine engine.waiting (stock.reaches first) admitted
  have some : taken ≠ [] := by
    rintro rfl
    obtain ⟨started, seqsEq, startedNone⟩ := popped.joined
    obtain ⟨retired, endedEq, retiredNone⟩ := popped.left
    rw [List.sublist_nil, List.map_eq_nil_iff] at startedNone
    rw [List.sublist_nil] at retiredNone
    simp [seqsEq, endedEq, startedNone, retiredNone] at prefilled
  have room := popped.room some
  have need := need_le_length next.pool (next.running ++ newSeqs)
  have decodes := stock.reaches more
  have balanced := decodes.balanced
  have seqsEq : (machine.withEngine { next with running := next.running ++ newSeqs }).seqs = next.running ++ newSeqs := by
    simp [Machine.seqs, Machine.withEngine, idle]
  rw [seqsEq, add_comm] at balanced
  refine ⟨room, ?_, ?_⟩
  · rcases prepare_cases (commit_supplied decodes.positive balanced fun seq member => decodes.covers seq (by grind))
      with ⟨short, -⟩ | ⟨-, after, grown, write, -, prepared, -⟩
    · exact absurd (Nat.lt_of_lt_of_le short need) (Nat.not_lt.mpr room)
    · exact ⟨_, prepared⟩
  · obtain ⟨ended, last, discarded, stepped, names, through⟩ := step_steps stock idle
    rw [stepped, yields_ok]
    have nobody : discarded = [] := by
      rw [victim, scheduled] at names
      simp only [preempted, Nat.not_lt.mpr (need.trans room), if_false, Option.toList_none, List.map_eq_nil_iff] at names
      exact names
    have total := through.preemptions
    rw [nobody, List.append_nil] at total
    exact Nat.add_right_cancel total

/-- Request 0 ends in its prefill, and request 1 joins the batch. -/
theorem admission_spares_the_batch_competing :
    0 < 1 ∧ (∃ session cancelled engine newSeqs done next,
      (Session.new counting 12 1 true 0 (competing 6) ()).after counting [.addRequest 0 false, .addRequest 1 false] =
        .ok session ∧
      applyCancellations counting session.engine = .ok (cancelled, engine) ∧
      admitRequests counting engine = .ok (newSeqs, done, next) ∧
      (newSeqs ≠ [] ∨ done ≠ [] →
        (next.running ++ newSeqs).length ≤ next.pool.allocator.numFree ∧
        (∃ prepared, BatchedPagedCache.prepare next.pool (next.running ++ newSeqs) = .ok prepared) ∧
        Yields (step counting session.engine) fun stepped =>
          stepped.2.preemptions = session.engine.preemptions)) ∧
    Yields ((Session.new counting 12 1 true 0 (competing 6) ()).after counting [.addRequest 0 false, .addRequest 1 false])
      fun session => Yields (applyCancellations counting session.engine) fun applied =>
        Yields (admitRequests counting applied.2) fun admitted =>
          admitted.1.map Sequence.request = [1] ∧ admitted.2.1 = [0] :=
  ⟨Nat.one_pos, admission_spares_the_batch counting 12 1 true 0 (competing 6) () Nat.one_pos
    [.addRequest 0 false, .addRequest 1 false], by decide +kernel⟩

/-! ## The check and the prefill -/

/-- The local variables of the loop of `_admit`, at its head. -/
structure Admitting (V S : Type) where
  engine : EngineState V S
  admitted : List Sequence := []
  done : List Nat := []
  queue : List Nat

namespace Admitting

/-- `need + reserve`. -/
def asks (cfg : Config X V L S) (loop : Admitting V S) (request : Nat) : Nat :=
  blocksNeeded loop.engine.pool (loop.engine.requests request) + 1 +
    max cfg.reserveBlocks (loop.engine.running.length + loop.admitted.length + 1)

def returns (cfg : Config X V L S) (loop : Admitting V S) : Except EngineError (List Sequence × List Nat × EngineState V S) :=
  admitLoop cfg loop.engine loop.admitted loop.done loop.queue

def shown (loop : Admitting V S) (base : Machine V S) : Machine V S :=
  base.admitting loop.engine loop.admitted loop.queue

theorem asks_eq (loop : Admitting V S) (req : Nat) :
    loop.asks cfg req =
      admissionNeed cfg { loop.engine with running := loop.engine.running ++ loop.admitted } req := by
  simp only [asks, admissionNeed, List.length_append]

end Admitting

/-- The free-block check for `request` has passed. -/
structure PassesCheck (cfg : Config X V L S) (loop : Admitting V S) (request : Nat) (roomy : EngineState V S) : Prop where
  slot : loop.engine.running.length + loop.admitted.length < cfg.maxBatchSize
  made : makeRoom loop.engine (loop.asks cfg request) = .ok (true, roomy)
  possible : ¬(roomy.running.isEmpty ∧ loop.admitted.isEmpty ∧ loop.asks cfg request > roomy.pool.allocator.numBlocks)

/-- Once round the loop: one constructor for each way its body reaches the end. -/
inductive Round (cfg : Config X V L S) : Admitting V S → Admitting V S → Prop
  | rejected {loop : Admitting V S} {request : Nat} {queue : List Nat} {roomy : EngineState V S}
    (queued : loop.queue = request :: queue)
    (slot : loop.engine.running.length + loop.admitted.length < cfg.maxBatchSize)
    (made : makeRoom loop.engine (loop.asks cfg request) = .ok (true, roomy))
    (tooLarge : roomy.running.isEmpty ∧ loop.admitted.isEmpty ∧ loop.asks cfg request > roomy.pool.allocator.numBlocks) :
    Round cfg loop
      ⟨recordFinished cfg (finish roomy request .rejected) request, loop.admitted, loop.done ++ [request], queue⟩
  | preempted {loop : Admitting V S} {request : Nat} {queue : List Nat} {roomy after : EngineState V S}
    {cache : PagedKVCache} (queued : loop.queue = request :: queue) (passes : PassesCheck cfg loop request roomy)
    (seeded : roomy.pool.allocate = some cache) (started : start cfg roomy request cache = .ok (none, after)) :
    Round cfg loop ⟨after, loop.admitted, loop.done ++ [request], queue⟩
  | ended {loop : Admitting V S} {request : Nat} {queue : List Nat} {roomy after last : EngineState V S}
    {cache : PagedKVCache} {seq : Sequence} (queued : loop.queue = request :: queue)
    (passes : PassesCheck cfg loop request roomy) (seeded : roomy.pool.allocate = some cache)
    (started : start cfg roomy request cache = .ok (some seq, after)) (finished : seq.finished = true)
    (retired : retire cfg after seq = .ok last) :
    Round cfg loop ⟨last, loop.admitted, loop.done ++ [seq.request], queue⟩
  | joined {loop : Admitting V S} {request : Nat} {queue : List Nat} {roomy after : EngineState V S}
    {cache : PagedKVCache} {seq : Sequence} (queued : loop.queue = request :: queue)
    (passes : PassesCheck cfg loop request roomy) (seeded : roomy.pool.allocate = some cache)
    (started : start cfg roomy request cache = .ok (some seq, after)) (goesOn : seq.finished = false) :
    Round cfg loop ⟨after, loop.admitted ++ [seq], loop.done, queue⟩

namespace Round

variable {loop next : Admitting V S}

theorem pops (round : Round cfg loop next) : ∃ req, loop.queue = req :: next.queue := by
  cases round with
  | rejected queued => exact ⟨_, queued⟩
  | preempted queued => exact ⟨_, queued⟩
  | ended queued => exact ⟨_, queued⟩
  | joined queued => exact ⟨_, queued⟩

theorem returns_eq (round : Round cfg loop next) : loop.returns cfg = next.returns cfg := by
  cases round with
  | rejected queued slot made tooLarge =>
    simp only [Admitting.asks] at made tooLarge
    simp only [Admitting.returns, queued, admitLoop, if_pos slot, made, if_pos tooLarge]
  | preempted queued passes seeded started =>
    obtain ⟨slot, made, possible⟩ := passes
    simp only [Admitting.asks] at made possible
    simp only [Admitting.returns, queued, admitLoop, if_pos slot, made, if_neg possible, seeded, started]
  | ended queued passes seeded started finished retired =>
    obtain ⟨slot, made, possible⟩ := passes
    simp only [Admitting.asks] at made possible
    simp only [Admitting.returns, queued, admitLoop, if_pos slot, made, if_neg possible, seeded, started, finished,
      if_true, retired]
  | joined queued passes seeded started goesOn =>
    obtain ⟨slot, made, possible⟩ := passes
    simp only [Admitting.asks] at made possible
    simp only [Admitting.returns, queued, admitLoop, if_pos slot, made, if_neg possible, seeded, started, goesOn,
      Bool.false_eq_true, if_false]

theorem cleared {queue : List Nat} {roomy : EngineState V S} (stock : Stock cfg (loop.shown base))
    (queued : loop.queue = req :: queue) (made : makeRoom loop.engine (loop.asks cfg req) = .ok (true, roomy)) :
    Cleared cfg base loop.engine roomy loop.admitted req queue := by
  rw [Admitting.shown, queued] at stock
  rw [Admitting.asks_eq] at made
  exact makeRoom_cleared base stock made

theorem stock (round : Round cfg loop next) (stock : Stock cfg (loop.shown base)) : Stock cfg (next.shown base) := by
  cases round with
  | rejected queued _ made tooLarge =>
    have possible := (cleared stock queued made).possible (loop.engine.running.isEmpty = true)
    obtain ⟨_, _, rfl⟩ := (cleared stock queued made).same
    rw [Admitting.asks_eq] at tooLarge
    exact absurd tooLarge possible
  | preempted queued passes seeded started =>
    have checked := cleared stock queued passes.made
    rw [Admitting.shown, queued] at stock
    obtain ⟨_, _, startedSome, -⟩ := checked.starts stock passes.slot
    rw [checked.seeded, Option.some.injEq] at seeded
    rw [← seeded, startedSome] at started
    cases started
  | ended queued passes seeded started _ retired =>
    have checked := cleared stock queued passes.made
    rw [Admitting.shown, queued] at stock
    obtain ⟨after, seq, startedHere, -, outcome⟩ := checked.starts stock passes.slot
    rw [checked.seeded, Option.some.injEq] at seeded
    rw [← seeded, startedHere] at started
    obtain ⟨rfl, rfl⟩ := started
    rcases outcome with ⟨-, _, retiredHere, -, -, steps⟩ | ⟨_, -⟩
    · rw [retired, Except.ok.injEq] at retiredHere
      rw [retiredHere]
      exact stock.reaches steps
    · grind
  | joined queued passes seeded started =>
    have checked := cleared stock queued passes.made
    rw [Admitting.shown, queued] at stock
    obtain ⟨after, seq, startedHere, -, outcome⟩ := checked.starts stock passes.slot
    rw [checked.seeded, Option.some.injEq] at seeded
    rw [← seeded, startedHere] at started
    obtain ⟨rfl, rfl⟩ := started
    rcases outcome with ⟨_, -⟩ | ⟨-, -, -, steps⟩
    · grind
    · exact stock.reaches steps

end Round

theorem Admitting.stops_or_rounds {loop : Admitting V S} {last : EngineState V S}
    (result : loop.returns cfg = .ok (newSeqs, ended, last)) :
    (newSeqs = loop.admitted ∧ ended = loop.done ∧ last.waiting = loop.queue) ∨ ∃ next, Round cfg loop next := by
  obtain ⟨eng, admitted, done, queue⟩ := loop
  -- All the ways out of the body leave both lists and the queue alone.
  have stops : ∀ {final : EngineState V S} {left : List Nat},
      (.ok (admitted, done, { final with waiting := left }) : Except EngineError _) = .ok (newSeqs, ended, last) →
        newSeqs = admitted ∧ ended = done ∧ last.waiting = left := by grind
  cases queue with
  | nil => exact .inl (stops result)
  | cons req queue =>
    simp only [Admitting.returns, admitLoop] at result
    split at result
    case isFalse => exact .inl (stops result)
    case isTrue slot =>
      split at result
      case h_1 => cases result
      case h_2 => exact .inl (stops result)
      case h_3 roomy made =>
        split at result
        case isTrue tooLarge => exact .inr ⟨_, .rejected rfl slot made tooLarge⟩
        case isFalse possible =>
          have passes : PassesCheck cfg ⟨eng, admitted, done, req :: queue⟩ req roomy := ⟨slot, made, possible⟩
          split at result
          case h_1 => exact .inl (stops result)
          case h_2 _ seeded =>
            split at result
            case h_1 => cases result
            case h_2 after started => exact .inr ⟨_, .preempted rfl passes seeded started⟩
            case h_3 _ after started =>
              split at result
              case isFalse => exact .inr ⟨_, .joined rfl passes seeded started (by grind)⟩
              case isTrue finished =>
                split at result
                case h_1 => cases result
                case h_2 retired => exact .inr ⟨_, .ended rfl passes seeded started finished retired⟩

theorem Admitting.returns_after_rounds {loop : Admitting V S} {last : EngineState V S}
    (result : loop.returns cfg = .ok (newSeqs, ended, last)) :
    ∃ final : Admitting V S, Relation.ReflTransGen (Round cfg) loop final ∧
      newSeqs = final.admitted ∧ ended = final.done ∧ last.waiting = final.queue := by
  -- By the length of the queue, of which a round pops the head.
  generalize count : loop.queue.length = length
  induction length using Nat.strongRecOn generalizing loop with
  | ind length ih =>
    cases stops_or_rounds result with
    | inl stops => exact ⟨loop, .refl, stops⟩
    | inr goesRound =>
      obtain ⟨next, round⟩ := goesRound
      obtain ⟨_, queued⟩ := round.pops
      rw [round.returns_eq] at result
      have shorter : next.queue.length < length := by
        rw [← count, queued]
        exact Nat.lt_succ_self _
      obtain ⟨final, rounds, ends⟩ := ih _ shorter result rfl
      exact ⟨final, .head round rounds, ends⟩

theorem start_request {eng after : EngineState V S} {cache : PagedKVCache} {seq : Sequence}
    (started : start cfg eng req cache = .ok (some seq, after)) : seq.request = req := by
  rw [start] at started
  split at started
  case h_1 => cases started
  case h_2 => split at started <;> cases started
  case h_3 =>
    split at started
    · cases started
    · simp only [acceptAndEmit_eq] at started
      cases started
      split
      · rfl
      · split <;> rfl

/-- Everyone the loop has to account for. -/
def Admitting.everyone (loop : Admitting V S) : List Nat :=
  loop.admitted.map Sequence.request ++ loop.done ++ loop.queue

theorem Round.everyone_perm {loop next : Admitting V S} (round : Round cfg loop next) :
    next.everyone.Perm loop.everyone := by
  cases round with
  | rejected queued => simp [Admitting.everyone, queued]
  | preempted queued => simp [Admitting.everyone, queued]
  | ended queued _ _ started => simp [Admitting.everyone, queued, start_request started]
  | joined queued _ _ started =>
    simp only [Admitting.everyone, queued, List.map_append, List.map_cons, List.map_nil, start_request started,
      List.append_assoc, List.singleton_append]
    exact List.Perm.append_left _ List.perm_middle.symm

theorem rounds_keep_everyone {loop next : Admitting V S} (rounds : Relation.ReflTransGen (Round cfg) loop next) :
    next.queue <:+ loop.queue ∧ next.everyone.Perm loop.everyone := by
  induction rounds with
  | refl => exact ⟨List.suffix_refl _, .refl _⟩
  | tail _ round ih =>
    obtain ⟨_, queued⟩ := round.pops
    rw [queued] at ih
    exact ⟨(List.suffix_cons _ _).trans ih.1, round.everyone_perm.trans ih.2⟩

/-- In any state of the engine at all, an `_admit` that returns has popped a front part of the queue
and put every request of it, once, in the batch or among the ended. -/
theorem admission_loses_nobody (cfg : Config X V L S) (engine : EngineState V S) (newSeqs : List Sequence)
    (ended : List Nat) (next : EngineState V S) (admitted : admitRequests cfg engine = .ok (newSeqs, ended, next)) :
    next.waiting <:+ engine.waiting ∧ (newSeqs.map Sequence.request ++ ended ++ next.waiting).Perm engine.waiting := by
  obtain ⟨final, rounds, rfl, rfl, left⟩ :=
    @Admitting.returns_after_rounds X V L S cfg _ _ { engine, queue := engine.waiting } _ admitted
  rw [left]
  exact rounds_keep_everyone rounds

/-- Request 0 ends in its prefill, and its second entry in the queue is served again. -/
theorem admission_loses_nobody_twice :
    Yields (admitRequests counting { (Session.new counting 12 1 true 0 (competing 6) ()).engine with waiting := [0, 1, 0] })
      fun (newSeqs, ended, next) => newSeqs.map Sequence.request = [1] ∧ ended = [0, 0] ∧
        next.waiting <:+ [0, 1, 0] ∧ (newSeqs.map Sequence.request ++ ended ++ next.waiting).Perm [0, 1, 0] := by
  obtain ⟨⟨newSeqs, ended, next⟩, ran, joined, left⟩ : Yields (admitRequests counting
      { (Session.new counting 12 1 true 0 (competing 6) ()).engine with waiting := [0, 1, 0] })
      fun admitted => admitted.1.map Sequence.request = [1] ∧ admitted.2.1 = [0, 0] := by decide +kernel
  exact ⟨_, ran, joined, left, admission_loses_nobody counting _ newSeqs ended next ran⟩

theorem rounds_stock {loop next : Admitting V S} (rounds : Relation.ReflTransGen (Round cfg) loop next)
    (stock : Stock cfg (loop.shown base)) : Stock cfg (next.shown base) := by
  induction rounds with
  | refl => exact stock
  | tail _ round ih => exact round.stock ih

theorem Transition.unpreempted {before after : Machine V S} (step : Transition cfg before after)
    (not : (before.engine.requests req).finishReason ≠ some .preempted) :
    (after.engine.requests req).finishReason ≠ some .preempted := by
  -- A request that ends, ends with the reason of the transition.
  have ended : ∀ (eng : EngineState V S) (other : Nat) (reason : FinishReason), reason ≠ .preempted →
      (eng.requests req).finishReason ≠ some .preempted →
      ((recordFinished cfg (finish eng other reason) other).requests req).finishReason ≠ some .preempted := by
    intro eng other reason differs was
    simp only [recordFinished, finish]
    by_cases here : req = other
    · subst here
      simpa using differs
    · rwa [update_of_ne here]
  have recorded : ∀ other token,
      ((record before.engine other token).requests req).finishReason ≠ some .preempted := by
    intro other token
    simp only [record]
    by_cases here : req = other
    · subst here
      simpa using not
    · rwa [update_of_ne here]
  cases step with
  | submit added =>
    simp only [addRequest]
    split
    case h_1 =>
      simp only [ContinuousBatchingEngine.reject, recordFinished, finish, update_idem]
      by_cases here : req = added
      · subst here
        simp
      · rwa [update_of_ne here]
    case h_2 => exact not
  | cancelRunning => exact ended _ _ _ (by decide) not
  | cancelWaiting => exact ended _ _ _ (by decide) not
  | makeRoom _ _ _ made =>
    obtain ⟨_, _, rfl⟩ := makeRoom_requests made
    exact not
  | reject => exact ended _ _ _ (by decide) not
  | keep => exact recorded _ _
  | fill => exact ended _ _ _ (by decide) (recorded _ _)
  | stop => exact ended _ _ _ (by decide) not
  | preempt _ victim =>
    simp only [Machine.withEngine]
    by_cases here : req = victim.request
    · grind
    · rwa [update_of_ne here]
  | _ => exact not

theorem Reaches.unpreempted {before after : Machine V S} (steps : Reaches cfg before after)
    (not : (before.engine.requests req).finishReason ≠ some .preempted) :
    (after.engine.requests req).finishReason ≠ some .preempted := by
  induction steps with
  | refl => exact not
  | tail _ step ih => exact step.unpreempted ih

/-- In every state a run reaches, and however often the loop of the next `_admit` has gone round:
once the free-block check has passed for a request, the pool hands out a sequence and the prefill
into it succeeds. So no request ever ends as preempted. -/
theorem checked_prefill_succeeds (cfg : Config X V L S) (numBlocks blockSize : Nat) (enablePrefixCache : Bool) (zero : V)
    (clients : Nat → Submission) (rng : S) (positive : 0 < blockSize) (calls : List Call) :
    ∃ session cancelled engine,
      (Session.new cfg numBlocks blockSize enablePrefixCache zero clients rng).after cfg calls = .ok session ∧
      applyCancellations cfg session.engine = .ok (cancelled, engine) ∧
      (∀ loop : Admitting V S, Relation.ReflTransGen (Round cfg) { engine, queue := engine.waiting } loop →
        ∀ request queue roomy, loop.queue = request :: queue →
          makeRoom loop.engine (loop.asks cfg request) = .ok (true, roomy) →
          ∃ cache, roomy.pool.allocate = some cache ∧
            ∃ result, prefill cfg roomy.pool roomy.prefixCache (roomy.requests request) cache = .ok result) ∧
      ∀ request, (session.engine.requests request).finishReason ≠ some .preempted := by
  have booted := @Stock.new X V L S cfg numBlocks blockSize enablePrefixCache zero clients rng positive
  obtain ⟨machine, ran, idle, steps, -⟩ := run_steps booted rfl calls
  have stock := booted.reaches steps
  obtain ⟨cancelled, engine, -, -, -, applied, -, -, first, -⟩ := schedule_parts stock idle
  refine ⟨machine.session, cancelled, engine, ran, applied, ?_, ?_⟩
  · intro loop rounds request queue roomy queued made
    have atHead := rounds_stock rounds (stock.reaches first)
    have cleared := Round.cleared atHead queued made
    rw [Admitting.shown, queued] at atHead
    have room := cleared.room
    have roomyStock := atHead.transition cleared.step
    obtain ⟨allocator, prefixCache, rfl⟩ := cleared.same
    obtain ⟨logits, pool, cached, cache, spec⟩ := roomyStock.prefilled room
    exact ⟨{}, cleared.seeded, _, spec.result⟩
  · exact fun request => steps.unpreempted (by simp [Session.new, Submission.request])

/-- The check passes for request 0, whose prefill takes three of the six blocks. -/
theorem checked_prefill_succeeds_competing :
    0 < 1 ∧ (∃ session cancelled engine,
      (Session.new counting 6 1 true 0 (competing 6) ()).after counting [.addRequest 0 false] = .ok session ∧
      applyCancellations counting session.engine = .ok (cancelled, engine) ∧
      (∀ loop : Admitting Nat Unit, Relation.ReflTransGen (Round counting) { engine, queue := engine.waiting } loop →
        ∀ request queue roomy, loop.queue = request :: queue →
          makeRoom loop.engine (loop.asks counting request) = .ok (true, roomy) →
          ∃ cache, roomy.pool.allocate = some cache ∧
            ∃ result, prefill counting roomy.pool roomy.prefixCache (roomy.requests request) cache = .ok result) ∧
      ∀ request, (session.engine.requests request).finishReason ≠ some .preempted) ∧
    Yields ((Session.new counting 6 1 true 0 (competing 6) ()).after counting [.addRequest 0 false]) fun session =>
      session.engine.waiting = [0] ∧
        Yields (makeRoom session.engine (Admitting.asks counting { engine := session.engine, queue := [0] } 0)) fun made =>
          made.1 = true :=
  ⟨Nat.one_pos, checked_prefill_succeeds counting 6 1 true 0 (competing 6) () Nat.one_pos [.addRequest 0 false],
    by decide +kernel⟩

end Nanoserve.Verified
