import Nanoserve.Verified.Simulation

/-! # What a step does to the queue and the batch

A step with no cancellation pending pops a first part of the queue.
-/

namespace Nanoserve.Verified

open Engine Lib List
open ContinuousBatchingEngine

variable {X V L S : Type} {cfg : Config X V L S}
variable {before next : EngineState V S} {token : Nat} {done ended : List Nat} {m : Machine V S}
variable {req : Nat} {after eng : EngineState V S} {admitted newSeqs : List Sequence}
  {batch : List (Sequence × Nat)}

def Natural (before after : Request) : Prop :=
  after.finishReason = before.finishReason ∨ after.finishReason = some .eos ∨ after.finishReason = some .length

theorem Natural.refl (req : Request) : Natural req req := .inl rfl

theorem Natural.trans {first second third : Request} (left : Natural first second) (right : Natural second third) :
    Natural first third := by
  rcases right with same | ended
  · rw [Natural, same]
    exact left
  · exact .inr ended

theorem Retires.natural (retires : Retires req before after) (other : Nat) :
    Natural (before.requests other) (after.requests other) := by
  by_cases here : other = req
  · subst here
    exact .inr retires.reason
  · rw [retires.others other here]
    exact .refl _

theorem Retires.more (retires : Retires req before after) : before.numFinished < after.numFinished := by
  rw [retires.numFinished]
  exact Nat.lt_succ_self _

theorem Advances.natural (advances : Advances req token before after) (other : Nat) :
    Natural (before.requests other) (after.requests other) := by
  by_cases here : other = req
  · subst here
    rw [advances.recorded]
    exact .inl rfl
  · rw [advances.others other here]
    exact .refl _

theorem applyCancellations_quiet (quiet : eng.cancelRequested = []) :
    applyCancellations cfg eng = .ok ([], eng) := by
  simp [applyCancellations, quiet]

def Withdrawn (before after : Request) : Prop :=
  after.finishReason = before.finishReason ∨ after.finishReason = some .cancelled

theorem Withdrawn.trans {first second third : Request} (left : Withdrawn first second)
    (right : Withdrawn second third) : Withdrawn first third := by
  rcases right with same | ended
  · rw [Withdrawn, same]
    exact left
  · exact .inr ended

theorem withdrawn_ended (eng : EngineState V S) (req other : Nat) :
    Withdrawn (eng.requests other)
      ((recordFinished cfg (finish eng req .cancelled) req).requests other) := by
  by_cases here : other = req
  · subst here
    exact .inr (by simp [recordFinished, finish, Request.finish])
  · exact .inl (by simp [recordFinished, finish, Function.update_of_ne here])

theorem cancelRunning_withdrawn {seqs : List Sequence} (result : cancelRunning cfg eng seqs = .ok next)
    (other : Nat) : Withdrawn (eng.requests other) (next.requests other) := by
  induction seqs generalizing eng with
  | nil =>
    simp only [cancelRunning, Except.ok.injEq] at result
    exact .inl (by rw [result])
  | cons seq _ ih =>
    simp only [cancelRunning] at result
    split at result
    · cases result
    · next pool _ _ =>
      exact (withdrawn_ended { eng with pool } seq.request other).trans (ih result)

theorem cancelWaiting_withdrawn (requests : List Nat) (eng : EngineState V S) (other : Nat) :
    Withdrawn (eng.requests other) ((cancelWaiting cfg eng requests).requests other) := by
  induction requests generalizing eng with
  | nil => exact .inl rfl
  | cons req _ ih =>
    exact (withdrawn_ended eng req other).trans (ih _)

theorem applyCancellations_withdrawn {cancelled : List Nat}
    (applied : applyCancellations cfg eng = .ok (cancelled, next)) (other : Nat) :
    Withdrawn (eng.requests other) (next.requests other) := by
  unfold applyCancellations at applied
  split at applied
  · simp only [Except.ok.injEq, Prod.mk.injEq] at applied
    exact .inl (by rw [applied.2])
  · dsimp only at applied
    split at applied
    · cases applied
    · next result =>
      simp only [Except.ok.injEq, Prod.mk.injEq] at applied
      rw [← applied.2]
      exact (cancelRunning_withdrawn result other).trans (cancelWaiting_withdrawn _ _ other)

/-! ## Admission -/

section Takes

section

variable (takes : Takes req eng admitted after newSeqs)
include takes

theorem Takes.natural (other : Nat) :
    Natural (eng.requests other) (after.requests other) := by
  cases takes with
  | ended retires => exact retires.natural other
  | joined _ advances => exact advances.natural other

theorem Takes.joins : admitted <+: newSeqs := by
  cases takes with
  | ended => exact prefix_refl _
  | joined => exact prefix_append _ _

theorem Takes.counted :
    newSeqs.length + after.numFinished = admitted.length + eng.numFinished + 1 := by
  cases takes with
  | ended retires => rw [retires.numFinished]; rfl
  | joined _ advances =>
    rw [advances.numFinished, length_append, length_singleton]
    omega

theorem Takes.grows : eng.numFinished ≤ after.numFinished := by
  cases takes with
  | ended retires => exact Nat.le_of_lt retires.more
  | joined _ advances => exact Nat.le_of_eq advances.numFinished.symm

end

end Takes

structure Admits (cfg : Config X V L S) (engine : EngineState V S) (admitted : List Sequence) (queue : List Nat)
    (newSeqs : List Sequence) (next : EngineState V S) : Prop where
  running : next.running = engine.running
  cancelRequested : next.cancelRequested = engine.cancelRequested
  joins : admitted <+: newSeqs
  popped : next.waiting <:+ queue
  counted : next.waiting.length + newSeqs.length + next.numFinished =
    queue.length + admitted.length + engine.numFinished
  grows : engine.numFinished ≤ next.numFinished
  others : ∀ other, other ∉ queue → next.requests other = engine.requests other
  natural : ∀ other, Natural (engine.requests other) (next.requests other)
  /-- Whoever joined has left a block for everybody. -/
  room : (engine.running ++ admitted).length ≤ engine.pool.allocator.numFree ∨ newSeqs ≠ admitted →
    (next.running ++ newSeqs).length ≤ next.pool.allocator.numFree
  stops : ∀ request rest, queue = request :: rest → next.waiting = queue →
    cfg.maxBatchSize ≤ (engine.running ++ admitted).length ∨
      engine.pool.allocator.numFree + spare (heldBy tableOf (engine.running ++ admitted)) engine.prefixCache <
        admissionNeed cfg { engine with running := engine.running ++ admitted } request

theorem admitLoop_admits (base : Machine V S) (queue : List Nat)
    (stock : Stock cfg (base.admitting eng admitted queue))
    (result : admitLoop cfg eng admitted done queue = .ok (newSeqs, ended, next)) :
    Admits cfg eng admitted queue newSeqs next := by
  induction queue generalizing eng admitted done with
  | nil =>
    obtain ⟨rfl, rfl, rfl⟩ := result
    refine ⟨rfl, rfl, prefix_refl _, suffix_refl _, rfl, Nat.le_refl _, fun _ _ => rfl, fun _ => .refl _, ?_,
      ?_⟩
    · intro room
      exact room.resolve_right fun joined => joined rfl
    · intro req rest empty
      cases empty
  | cons req queue ih =>
    rcases @admitLoop_cons X V L S cfg base eng admitted done req queue stock with
      ⟨pool, prefixCache, stopped, noFewer, why, -⟩ |
      ⟨after, afterSeqs, afterEnded, popped, takes, -, roomAfter, -, steps⟩
    · rw [stopped] at result
      cases result
      refine ⟨rfl, rfl, prefix_refl _, suffix_refl _, rfl, Nat.le_refl _, fun _ _ => rfl, fun _ => .refl _, ?_,
      ?_⟩
      · intro room
        exact (room.resolve_right fun joined => joined rfl).trans noFewer
      · rintro head rest ⟨rfl, rfl⟩ -
        rw [length_append]
        exact why
    · have admits := ih (stock.reaches steps) (popped.symm.trans result)
      have apart := takes.apart
      refine ⟨admits.running.trans apart.running, admits.cancelRequested.trans apart.cancelRequested,
        takes.joins.trans admits.joins, admits.popped.trans (suffix_cons _ _), ?_, takes.grows.trans admits.grows, ?_, ?_,
        ?_, ?_⟩
      · have first := takes.counted
        have rest := admits.counted
        rw [length_cons]
        omega
      · intro other outside
        rw [mem_cons, not_or] at outside
        rw [admits.others other outside.2, apart.others other outside.1]
      · exact fun other => (takes.natural other).trans (admits.natural other)
      · exact fun _ => admits.room (.inl roomAfter)
      · -- The head is gone, so the queue is shorter.
        rintro head rest - unpopped
        have shorter := admits.popped.length_le
        rw [unpopped, length_cons] at shorter
        omega

theorem schedule_cases (stock : Stock cfg m) (idle : m.pending = []) :
    ∃ cancelled eng newSeqs done next, applyCancellations cfg m.engine = .ok (cancelled, eng) ∧
      schedule cfg m.engine = .ok (cancelled ++ done, { next with running := next.running ++ newSeqs }) ∧
      Admits cfg eng [] eng.waiting newSeqs next ∧
      Reaches cfg m (m.withEngine { next with running := next.running ++ newSeqs }) := by
  obtain ⟨cancelled, eng, newSeqs, done, next, applied, admitted, scheduled, first, steps⟩ :=
    schedule_parts stock idle
  exact ⟨cancelled, eng, newSeqs, done, next, applied, scheduled,
    admitLoop_admits m eng.waiting (stock.reaches first) admitted, steps⟩

theorem schedule_admits (stock : Stock cfg m) (idle : m.pending = [])
    (quiet : m.engine.cancelRequested = []) :
    ∃ newSeqs done next,
      schedule cfg m.engine = .ok (done, { next with running := next.running ++ newSeqs }) ∧
      Admits cfg m.engine [] m.engine.waiting newSeqs next ∧
      Reaches cfg m (m.withEngine { next with running := next.running ++ newSeqs }) := by
  obtain ⟨_, _, newSeqs, done, next, applied, scheduled, admits, steps⟩ := schedule_cases stock idle
  rw [applyCancellations_quiet quiet] at applied
  cases applied
  exact ⟨newSeqs, done, next, scheduled, admits, steps⟩

structure Settles (engine : EngineState V S) (still : List Sequence) (batch : List (Sequence × Nat))
    (next : EngineState V S) : Prop where
  waiting : next.waiting = engine.waiting
  cancelRequested : next.cancelRequested = engine.cancelRequested
  keeps : still <+: next.running
  counted : next.running.length + next.numFinished = still.length + batch.length + engine.numFinished
  grows : engine.numFinished ≤ next.numFinished
  others : ∀ other, other ∉ batch.map (fun row => row.1.request) → next.requests other = engine.requests other
  natural : ∀ other, Natural (engine.requests other) (next.requests other)

theorem settle_cons (base : Machine V S) {seq : Sequence} {still : List Sequence}
    (stock : Stock cfg (base.showing { eng with running := still } ((seq, token) :: batch)))
    (result : settle cfg eng still done ((seq, token) :: batch) = .ok (ended, next)) :
    ∃ after done, (Retires seq.request eng after ∧ settle cfg after still done batch = .ok (ended, next) ∧
        Stock cfg (base.showing { after with running := still } batch)) ∨
      (Advances seq.request token eng after ∧
        settle cfg after (still ++ [{ seq with nextToken := token }]) done batch = .ok (ended, next) ∧
        Stock cfg (base.showing { after with running := still ++ [{ seq with nextToken := token }] } batch)) := by
  obtain ⟨after, _, accepted, -, outcome⟩ :=
    @settle_step X V L S cfg base eng seq token still eng.waiting batch stock
  rcases outcome with ⟨finished, retired, retiredEq, retires, -, step⟩ | ⟨rfl, goesOn, advances, -, step⟩
  · have retiredStock := stock.transition step
    rw [← retires.waiting] at retiredStock
    simp only [settle, accepted, finished, if_true, retiredEq] at result
    exact ⟨retired, _, .inl ⟨retires, result, retiredStock⟩⟩
  · have afterStock := stock.transition step
    rw [← advances.waiting] at afterStock
    have unfolded : settle cfg eng still done ((seq, token) :: batch) =
        settle cfg after (still ++ [{ seq with nextToken := token }]) done batch := by
      rw [settle, accepted]
      exact if_neg (by rw [goesOn]; exact Bool.false_ne_true)
    exact ⟨after, done, .inr ⟨advances, unfolded.symm.trans result, afterStock⟩⟩

theorem settle_settles (base : Machine V S) (batch : List (Sequence × Nat)) {still : List Sequence}
    (stock : Stock cfg (base.showing { eng with running := still } batch))
    (result : settle cfg eng still done batch = .ok (ended, next)) : Settles eng still batch next := by
  induction batch generalizing eng still done with
  | nil =>
    obtain ⟨rfl, rfl⟩ := result
    exact ⟨rfl, rfl, prefix_refl _, rfl, Nat.le_refl _, fun _ _ => rfl, fun _ => .refl _⟩
  | cons _ _ ih =>
    obtain ⟨_, _, ⟨retires, settled, afterStock⟩ | ⟨advances, settled, afterStock⟩⟩ :=
      settle_cons base stock result
    · have settles := ih afterStock settled
      refine ⟨settles.waiting.trans retires.waiting, settles.cancelRequested.trans retires.cancelRequested,
        settles.keeps, ?_, ?_, ?_, fun other => (retires.natural other).trans (settles.natural other)⟩
      · rw [settles.counted, retires.numFinished, length_cons]
        omega
      · exact (Nat.le_of_lt retires.more).trans settles.grows
      · intro other outside
        simp only [map_cons, mem_cons, not_or] at outside
        rw [settles.others other outside.2, retires.others other outside.1]
    · have settles := ih afterStock settled
      refine ⟨settles.waiting.trans advances.waiting, settles.cancelRequested.trans advances.cancelRequested,
        (prefix_append _ _).trans settles.keeps, ?_, advances.numFinished ▸ settles.grows, ?_,
        fun other => (advances.natural other).trans (settles.natural other)⟩
      · rw [settles.counted, advances.numFinished, length_append, length_singleton, length_cons]
        omega
      · intro other outside
        simp only [map_cons, mem_cons, not_or] at outside
        rw [settles.others other outside.2, advances.others other outside.1]

theorem settle_oldest (base : Machine V S) {seq : Sequence}
    (stock : Stock cfg (base.showing { eng with running := [] } ((seq, token) :: batch)))
    (result : settle cfg eng [] done ((seq, token) :: batch) = .ok (ended, next))
    (alone : seq.request ∉ batch.map fun row => row.1.request) :
    eng.numFinished < next.numFinished ∨
      (∃ rest, next.running = { seq with nextToken := token } :: rest) ∧
        next.requests seq.request = (eng.requests seq.request).recordToken token ∧
        (eng.requests seq.request).outputLen + 1 < (eng.requests seq.request).params.maxTokens := by
  obtain ⟨_, rest, ⟨retires, settled, afterStock⟩ | ⟨advances, settled, afterStock⟩⟩ :=
    settle_cons base stock result
  · have settles := settle_settles base batch afterStock settled
    exact .inl (Nat.lt_of_lt_of_le retires.more settles.grows)
  · have settles := settle_settles base batch afterStock settled
    obtain ⟨others, runningEq⟩ := settles.keeps
    refine .inr ⟨⟨others, runningEq.symm⟩, ?_, advances.left⟩
    rw [settles.others _ alone, advances.recorded]

structure Proceeds (before after : EngineState V S) : Prop where
  cancelRequested : after.cancelRequested = before.cancelRequested
  counted : after.waiting.length + after.running.length + after.numFinished =
    before.waiting.length + before.running.length + before.numFinished
  grows : before.numFinished ≤ after.numFinished
  natural : ∀ request, Natural (before.requests request) (after.requests request)

theorem Proceeds.trans {first second third : EngineState V S} (left : Proceeds first second)
    (right : Proceeds second third) : Proceeds first third where
  cancelRequested := right.cancelRequested.trans left.cancelRequested
  counted := right.counted.trans left.counted
  grows := left.grows.trans right.grows
  natural req := (left.natural req).trans (right.natural req)

theorem Admits.proceeds (admits : Admits cfg eng [] eng.waiting newSeqs next) :
    Proceeds eng { next with running := next.running ++ newSeqs } where
  cancelRequested := admits.cancelRequested
  counted := by
    have counted := admits.counted
    simp only [length_append, admits.running, length_nil] at counted ⊢
    omega
  grows := admits.grows
  natural := admits.natural

theorem decode_proceeds (stock : Stock cfg m) (idle : m.pending = []) (busy : m.engine.running ≠ [])
    (decoded : decode cfg m.engine done = .ok (ended, next)) : Proceeds m.engine next := by
  rcases decode_cases stock idle busy done with
    ⟨-, front, victim, pool, cache, runningEq, -, result⟩ | ⟨-, pool, grown, tokens, rng, names, rows, result, step⟩
  · rw [decoded] at result
    cases result
    refine ⟨rfl, ?_, Nat.le_refl _, ?_⟩
    · simp only [runningEq, length_append, length_cons, length_nil]
      omega
    · intro req
      by_cases here : req = victim.request
      · subst here
        simp only [Function.update_self]
        exact .inl rfl
      · simp only [Function.update_of_ne here]
        exact .refl _
  · rw [decoded] at result
    have settles := settle_settles m (grown.zip tokens) (stock.transition step) result.symm
    have lengths : (grown.zip tokens).length = m.engine.running.length := by
      rw [← length_map Prod.fst, rows, ← length_map Sequence.request, names, length_map]
    refine ⟨settles.cancelRequested, ?_, settles.grows, settles.natural⟩
    have counted : next.running.length + next.numFinished =
      0 + (grown.zip tokens).length + m.engine.numFinished := settles.counted
    rw [settles.waiting]
    simp only
    omega

theorem step_cases (stock : Stock cfg m) (idle : m.pending = [])
    (went : step cfg m.engine = .ok (ended, next)) :
    ∃ cancelled eng, applyCancellations cfg m.engine = .ok (cancelled, eng) ∧ Proceeds eng next := by
  obtain ⟨cancelled, eng, _, _, _, applied, scheduled, admits, steps⟩ := schedule_cases stock idle
  refine ⟨cancelled, eng, applied, ?_⟩
  simp only [step, scheduled] at went
  split at went
  · simp only [Except.ok.injEq, Prod.mk.injEq] at went
    rw [← went.2]
    exact admits.proceeds
  · next busy =>
    rw [List.isEmpty_iff] at busy
    exact admits.proceeds.trans (decode_proceeds (stock.reaches steps) idle busy went)

theorem step_proceeds (stock : Stock cfg m) (idle : m.pending = [])
    (quiet : m.engine.cancelRequested = []) (went : step cfg m.engine = .ok (ended, next)) :
    Proceeds m.engine next := by
  obtain ⟨_, _, applied, proceeds⟩ := step_cases stock idle went
  rw [applyCancellations_quiet quiet] at applied
  simp only [Except.ok.injEq, Prod.mk.injEq] at applied
  rw [applied.2]
  exact proceeds

end Nanoserve.Verified
