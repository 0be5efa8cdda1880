import Nanoserve.Verified.Admission

/-! # Nobody overtakes

The batch in its order and then the queue in its order are one line.
-/

namespace Nanoserve.Verified

open Engine Lib List
open ContinuousBatchingEngine

variable {X V L S : Type} {cfg : Config X V L S}

/-- The batch in its order, then the queue in its order. -/
def line (engine : EngineState V S) : List Nat := engine.running.map Sequence.request ++ engine.waiting

/-- The line of a machine, with the pending sequences at the end of the batch. -/
def Machine.line (machine : Machine V S) : List Nat := machine.seqs.map Sequence.request ++ machine.engine.waiting

theorem Machine.line_idle {m : Machine V S} (idle : m.pending = []) :
    m.line = Verified.line m.engine := by
  simp [Machine.line, Verified.line, Machine.seqs, idle]

def FirstCome (machine : Machine V S) : Prop := machine.line.Sublist machine.session.submitted

theorem sublist_without {α : Type} {front back : List α} (leaves : α) : (front ++ back).Sublist (front ++ leaves :: back) :=
  (sublist_cons_self leaves back).append_left front

theorem FirstCome.transition {m next : Machine V S} (inOrder : FirstCome m) (stock : Stock cfg m)
    (step : Transition cfg m next) : FirstCome next := by
  unfold FirstCome at inOrder ⊢
  cases step with
  | submit =>
    simp only [addRequest, Machine.line, Machine.seqs]
    split
    case h_1 => exact inOrder.trans (sublist_append_left _ _)
    case h_2 =>
      rw [← append_assoc]
      exact inOrder.append (.refl _)
  | cancelRunning _ _ _ _ _ running =>
    refine Sublist.trans ?_ inOrder
    simp only [Machine.line, Machine.seqs, Machine.withEngine, recordFinished, finish, running, map_append,
      map_cons, append_assoc, cons_append]
    exact sublist_without _
  | cancelWaiting _ cancelled _ waiting =>
    refine Sublist.trans ?_ inOrder
    simp only [Machine.line, Machine.seqs, Machine.withEngine, recordFinished, finish, waiting]
    exact (sublist_without cancelled).append_left _
  | makeRoom _ _ _ made =>
    obtain ⟨_, _, rfl⟩ := makeRoom_requests made
    exact inOrder
  | reject rejected waiting _ queued =>
    refine Sublist.trans ?_ inOrder
    simp only [Machine.line, Machine.seqs, Machine.withEngine, recordFinished, finish, queued]
    exact (sublist_cons_self rejected waiting).append_left _
  | prefill _ _ _ _ _ _ _ idle queued =>
    simp only [Machine.line, Machine.seqs, Machine.withEngine, idle, queued, map_nil, append_nil, map_cons,
      map_append, append_assoc, cons_append, nil_append] at inOrder ⊢
    exact inOrder
  | decode _ _ _ _ _ idle _ prepared ran =>
    obtain ⟨refilled, lengths⟩ := stock.decoded idle prepared ran
    simp only [Machine.line, Machine.seqs, idle, map_nil, append_nil] at inOrder
    simp only [Machine.line, Machine.seqs, Machine.withEngine, nil_append, map_fst_sampled lengths, refilled.request]
    exact inOrder
  | keep _ _ _ pendingEq =>
    simp only [Machine.line, Machine.seqs, Machine.withEngine, record, pendingEq, map_append, map_cons,
      append_assoc, cons_append, nil_append] at inOrder ⊢
    exact inOrder
  | fill _ _ _ _ _ pendingEq =>
    refine Sublist.trans ?_ inOrder
    simp only [Machine.line, Machine.seqs, Machine.withEngine, record, recordFinished, finish, pendingEq, map_append,
      map_cons, append_assoc, cons_append]
    exact sublist_without _
  | stop _ _ _ _ _ pendingEq =>
    refine Sublist.trans ?_ inOrder
    simp only [Machine.line, Machine.seqs, Machine.withEngine, recordFinished, finish, pendingEq, map_append,
      map_cons, append_assoc, cons_append]
    exact sublist_without _
  | preempt _ _ _ _ idle running =>
    simp only [Machine.line, Machine.seqs, Machine.withEngine, idle, running, map_nil, append_nil,
      map_append, map_cons, append_assoc, cons_append, nil_append] at inOrder ⊢
    exact inOrder
  | _ => exact inOrder

theorem FirstCome.reaches {m next : Machine V S} (inOrder : FirstCome m) (stock : Stock cfg m)
    (steps : Reaches cfg m next) : FirstCome next := by
  induction steps with
  | refl => exact inOrder
  | tail steps step ih => exact ih.transition (stock.reaches steps) step

/-- `earlier` was submitted, and then `later`. -/
def Precedes (submitted : List Nat) (earlier later : Nat) : Prop := [earlier, later].Sublist submitted

theorem precedes_of_line {submitted front back : List Nat} (inOrder : (front ++ back).Sublist submitted)
    {earlier later : Nat} (inFront : earlier ∈ front) (behind : later ∈ back) : Precedes submitted earlier later := by
  have pair : ([earlier] ++ [later]).Sublist (front ++ back) :=
    (singleton_sublist.mpr inFront).append (singleton_sublist.mpr behind)
  exact pair.trans inOrder

theorem rounds_suffix {loop next : Admitting V S} (rounds : Relation.ReflTransGen (Round cfg) loop next) :
    next.queue <:+ loop.queue := by
  induction rounds with
  | refl => exact suffix_refl _
  | tail _ round ih =>
    obtain ⟨req, queued⟩ := round.pops
    rw [queued] at ih
    exact (suffix_cons req _).trans ih

/-- What the next step from `session` does to the line. -/
structure KeepsLine (cfg : Config X V L S) (session : Session V S) : Prop where
  /-- The running requests and then the waiting ones, by submission. -/
  sorted : (line session.engine).Sublist session.submitted
  /-- However often the loop of `_admit` has gone round, the request at its head, the
  only one it can start, was submitted before everybody else who waits. -/
  heads : Yields (applyCancellations cfg session.engine) fun applied => ∀ loop : Admitting V S,
    Relation.ReflTransGen (Round cfg) { engine := applied.2, queue := applied.2.waiting } loop →
      ∀ request queue, loop.queue = request :: queue → ∀ waits ∈ queue, Precedes session.submitted request waits
  /-- All it starts, first or again, came before everybody it leaves waiting. -/
  starts : Yields (applyCancellations cfg session.engine) fun applied =>
    Yields (admitRequests cfg applied.2) fun admitted => ∃ taken, applied.2.waiting = taken ++ admitted.2.2.waiting ∧
      (admitted.1.map Sequence.request).Sublist taken ∧ admitted.2.1.Sublist taken ∧
      ∀ started ∈ taken, ∀ waits ∈ admitted.2.2.waiting, Precedes session.submitted started waits
  /-- Whoever is thrown out was submitted after all others that run. -/
  preempts : Yields (schedule cfg session.engine) fun scheduled => Yields (step cfg session.engine) fun stepped =>
    stepped.2.preemptions ≠ session.engine.preemptions → ∃ front victim, scheduled.2.running = front ++ [victim] ∧
      stepped.2.running = front ∧ stepped.2.waiting = victim.request :: scheduled.2.waiting ∧
      ∀ other ∈ front, Precedes session.submitted other.request victim.request

theorem FirstCome.starts {m : Machine V S} (inOrder : FirstCome m) (stock : Stock cfg m)
    (idle : m.pending = []) :
    Yields (applyCancellations cfg m.engine) fun applied =>
      (∀ loop : Admitting V S,
        Relation.ReflTransGen (Round cfg) { engine := applied.2, queue := applied.2.waiting } loop →
        ∀ req queue, loop.queue = req :: queue → ∀ waits ∈ queue,
          Precedes m.session.submitted req waits) ∧
      Yields (admitRequests cfg applied.2) fun admitted => ∃ taken, applied.2.waiting = taken ++ admitted.2.2.waiting ∧
        (admitted.1.map Sequence.request).Sublist taken ∧ admitted.2.1.Sublist taken ∧
        ∀ started ∈ taken, ∀ waits ∈ admitted.2.2.waiting, Precedes m.session.submitted started waits := by
  obtain ⟨_, eng, newSeqs, done, next, applied, admitted, -, first, -⟩ := schedule_parts stock idle
  have waitingInOrder : eng.waiting.Sublist m.session.submitted := by
    have atFirst := inOrder.reaches stock first
    exact (sublist_append_right _ _).trans atFirst
  rw [applied, yields_ok]
  constructor
  · intro loop rounds req queue queued waits behind
    have left := (rounds_suffix rounds).sublist.trans waitingInOrder
    rw [queued] at left
    exact @precedes_of_line _ [req] queue left _ _ (mem_singleton_self _) behind
  · have admittedHere : admitRequests cfg eng = .ok (newSeqs, done, next) := admitted
    rw [admittedHere, yields_ok]
    obtain ⟨taken, popped⟩ := admitLoop_popped m eng.waiting (stock.reaches first) admitted
    obtain ⟨started, seqsEq, order⟩ := popped.joined
    obtain ⟨_, endedEq, endedOrder⟩ := popped.left
    refine ⟨taken, popped.front, by rw [seqsEq]; exact order, by rw [endedEq]; exact endedOrder, ?_⟩
    intro req mem waits behind
    rw [popped.front] at waitingInOrder
    exact precedes_of_line waitingInOrder mem behind

theorem FirstCome.preempts {m : Machine V S} (inOrder : FirstCome m) (stock : Stock cfg m)
    (idle : m.pending = []) :
    Yields (schedule cfg m.engine) fun scheduled => Yields (step cfg m.engine) fun went =>
      went.2.preemptions ≠ m.engine.preemptions → ∃ front victim, scheduled.2.running = front ++ [victim] ∧
        went.2.running = front ∧ went.2.waiting = victim.request :: scheduled.2.waiting ∧
        ∀ other ∈ front, Precedes m.session.submitted other.request victim.request := by
  obtain ⟨done, scheduled, result, first⟩ := schedule_steps stock idle
  obtain ⟨ended, next, discarded, went, names, through⟩ := step_steps stock idle
  rw [result, yields_ok, went, yields_ok]
  intro preempting
  have total : next.preemptions + m.discarded.length =
    m.engine.preemptions + (m.discarded ++ discarded).length := through.preemptions
  have short : scheduled.pool.allocator.numFree < BatchedPagedCache.need scheduled.pool scheduled.running := by
    by_contra enough
    rw [victim, result] at names
    simp only [preempted, if_neg enough, Option.toList_none, map_eq_nil_iff] at names
    rw [names, append_nil] at total
    exact preempting (Nat.add_right_cancel total)
  have busy : scheduled.running ≠ [] := by
    intro nothing
    simp [nothing, BatchedPagedCache.need] at short
  rcases decode_cases (stock.reaches first) idle busy done with
    ⟨-, front, victim, pool, cache, runningEq, -, decoded⟩ | ⟨enough, -⟩
  · have decodedHere : decode cfg scheduled done = .ok (ended, next) := by
      simp only [step, result, List.isEmpty_iff, busy, if_false] at went
      exact went
    have sameEnd := decodedHere.symm.trans decoded
    cases sameEnd
    refine ⟨front, victim, runningEq, rfl, rfl, ?_⟩
    intro other mem
    have atScheduled : (m.withEngine scheduled).line.Sublist m.session.submitted :=
      inOrder.reaches stock first
    rw [@Machine.line_idle V S (m.withEngine scheduled) idle] at atScheduled
    have running : (scheduled.running.map Sequence.request).Sublist m.session.submitted :=
      (sublist_append_left _ _).trans atScheduled
    have runningHere : scheduled.running = front ++ [victim] := runningEq
    rw [runningHere, map_append] at running
    exact precedes_of_line running (mem_map_of_mem mem) (by simp)
  · exact absurd short (Nat.not_lt.mpr enough)

/-- In every state a run reaches, the batch followed by the queue is in submission order. -/
theorem nobody_overtakes (cfg : Config X V L S) (numBlocks blockSize : Nat) (enablePrefixCache : Bool) (zero : V)
    (clients : Nat → Submission) (rng : S) (positive : 0 < blockSize) (calls : List Call) :
    ∃ session, (Session.new cfg numBlocks blockSize enablePrefixCache zero clients rng).after cfg calls = .ok session ∧
      KeepsLine cfg session := by
  have booted := @Stock.new X V L S cfg numBlocks blockSize enablePrefixCache zero clients rng positive
  obtain ⟨machine, ran, idle, steps, -⟩ := run_steps booted rfl calls
  have stock := booted.reaches steps
  have empty : FirstCome { session := Session.new cfg numBlocks blockSize enablePrefixCache zero clients rng } :=
    List.Sublist.slnil
  have inOrder := empty.reaches booted steps
  have starts := inOrder.starts stock idle
  refine ⟨machine.session, ran, ?_, starts.mono fun _ both => both.1, starts.mono fun _ both => both.2,
    inOrder.preempts stock idle⟩
  rw [← Machine.line_idle idle]
  exact inOrder

/-- The step that comes next throws request 1 out. -/
theorem nobody_overtakes_competing :
    0 < 1 ∧ (∃ session, (Session.new counting 6 1 true 0 (competing 6) ()).after counting (competition 2) = .ok session ∧
      KeepsLine counting session) ∧
    Yields ((Session.new counting 6 1 true 0 (competing 6) ()).after counting (competition 2)) fun session =>
      Preempts counting session.engine :=
  ⟨Nat.one_pos, nobody_overtakes counting 6 1 true 0 (competing 6) () Nat.one_pos (competition 2), by decide +kernel⟩

end Nanoserve.Verified
