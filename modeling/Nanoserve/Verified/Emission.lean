import Nanoserve.Verified.Lifecycle

/-! # The emitted stream

The tokens of a request in the emitted stream are the outputs that preemption threw away, one after
the other, followed by what the request holds now.
-/

namespace Nanoserve.Verified

open Engine Lib List Function Machine
open ContinuousBatchingEngine
open PrefixCache (hashChain)

variable {X V L S : Type} {cfg : Config X V L S}

def Ledger.emittedFor (ledger : Ledger) (request : Nat) : List Nat :=
  (ledger.emitted.filter fun pair => pair.1 = request).map Prod.snd

def Ledger.discardedFor (ledger : Ledger) (request : Nat) : List Nat :=
  (ledger.discarded.filter fun pair => pair.1 = request).flatMap Prod.snd

/-- Nothing is lost between the stream and the heap. -/
def Ledger.Streamed (ledger : Ledger) : Prop :=
  ∀ request, ledger.emittedFor request = ledger.discardedFor request ++ (ledger.requests request).outputTokenIds

theorem output_update {requests : Nat → Request} {changed : Nat} {next : Request}
    (same : next.outputTokenIds = (requests changed).outputTokenIds) (req : Nat) :
    (update requests changed next req).outputTokenIds = (requests req).outputTokenIds := by
  by_cases here : req = changed
  · grind
  · rw [update_of_ne here]

theorem LedgerStep.streamed {maxActive : Nat} {before after : Ledger} (step : LedgerStep maxActive before after)
    (streamed : before.Streamed) : after.Streamed := by
  intro req
  have there := streamed req
  simp only [Ledger.emittedFor, Ledger.discardedFor] at there ⊢
  cases step with
  | enqueue => exact there
  | start => exact there
  | refuse =>
    rw [there, output_update (by rfl)]
  | retire =>
    rw [there, output_update (by rfl)]
  | withdraw =>
    rw [there, output_update (by rfl)]
  | produce produced =>
    by_cases here : req = produced
    · subst here
      simp [there]
    · have other : ¬produced = req := fun same => here same.symm
      simp [update_of_ne here, other, there]
  | requeue => grind

theorem LedgerSteps.streamed {maxActive : Nat} {before after : Ledger} (steps : LedgerSteps maxActive before after)
    (streamed : before.Streamed) : after.Streamed := by
  induction steps with
  | refl => exact streamed
  | tail _ last ih => exact last.streamed ih

structure Started (machine : Machine V S) : Prop where
  running : ∀ seq ∈ machine.engine.running, (machine.engine.requests seq.request).outputTokenIds ≠ []
  discarded : ∀ entry ∈ machine.discarded, entry.2 ≠ []

theorem produced_update {requests : Nat → Request} {changed : Nat} {next : Request} {req : Nat}
    (produced : (requests req).outputTokenIds ≠ [])
    (extends' : (requests changed).outputTokenIds <+: next.outputTokenIds) :
    (update requests changed next req).outputTokenIds ≠ [] := by
  by_cases here : req = changed
  · grind
  · grind

theorem Started.transition {m next : Machine V S} (started : Started m)
    (orderly : Orderly cfg.maxBatchSize m.ledger) (distinct : m.session.submitted.Nodup)
    (step : Transition cfg m next) : Started next := by
  have running := started.running
  cases step with
  | submit =>
    simp only [addRequest]
    split
    case h_1 =>
      refine ⟨fun seq mem => ?_, started.discarded⟩
      refine produced_update (produced_update (running seq mem) prefix_rfl) ?_
      exact prefix_rfl
    case h_2 => exact ⟨running, started.discarded⟩
  | cancelRunning _ _ _ _ _ runningEq =>
    exact ⟨fun other mem => produced_update (running other (mem_of_taken_out runningEq mem)) prefix_rfl,
      started.discarded⟩
  | cancelWaiting =>
    exact ⟨fun seq mem => produced_update (running seq mem) prefix_rfl, started.discarded⟩
  | makeRoom _ _ _ made =>
    obtain ⟨_, _, rfl⟩ := makeRoom_requests made
    exact ⟨running, started.discarded⟩
  | reject =>
    exact ⟨fun seq mem => produced_update (running seq mem) prefix_rfl, started.discarded⟩
  | decode =>
    exact ⟨fun seq mem => by simp [withEngine] at mem, started.discarded⟩
  | keep =>
    refine ⟨fun other mem => ?_, started.discarded⟩
    rcases mem_append.mp mem with old | new
    · exact produced_update (running other old) (prefix_append _ _)
    · rw [mem_singleton.mp new]
      simp [withEngine, record]
  | fill =>
    refine ⟨fun other mem => ?_, started.discarded⟩
    refine produced_update (produced_update (running other mem) (prefix_append _ _)) ?_
    exact prefix_rfl
  | stop =>
    exact ⟨fun other mem => produced_update (running other mem) prefix_rfl, started.discarded⟩
  | preempt front victim _ _ idle runningEq =>
    -- The victim is the only sequence of its request.
    have once := orderly.active_nodup distinct
    simp only [ledger, seqs, runningEq, idle, map_nil, append_nil, map_append,
      map_cons] at once
    refine ⟨fun other mem => ?_, ?_⟩
    · have inFront : other ∈ front := mem
      have differs : other.request ≠ victim.request := by
        intro same
        exact (nodup_append.mp once).2.2 other.request (mem_map_of_mem inFront) victim.request (by simp) same
      simp only [withEngine, update_of_ne differs]
      exact running other (by grind)
    · intro entry mem
      rcases mem_append.mp mem with old | new
      · exact started.discarded entry old
      · grind
  | _ => exact ⟨running, started.discarded⟩

theorem Started.reaches {m next : Machine V S} (started : Started m) (stock : Stock cfg m)
    (orderly : Orderly cfg.maxBatchSize m.ledger) (steps : Reaches cfg m next)
    (distinct : next.session.submitted.Nodup) : Started next := by
  induction steps with
  | refl => exact started
  | tail steps last ih =>
    have growing := (last.ledgerSteps (stock.reaches steps)).submitted_grows
    have distinctBefore := distinct.sublist growing.sublist
    exact (ih distinctBefore).transition (orderly.steps (Reaches.ledgerSteps stock steps)) distinctBefore last

theorem discardedFor_eq_nil {ledger : Ledger} {req : Nat} (absent : req ∉ ledger.discarded.map Prod.fst) :
    ledger.discardedFor req = [] := by
  have none : ledger.discarded.filter (fun pair => pair.1 = req) = [] := by
    rw [filter_eq_nil_iff]
    intro pair mem here
    exact absent (mem_map.mpr ⟨pair, mem, of_decide_eq_true here⟩)
  rw [Ledger.discardedFor, none, flatMap_nil]

theorem discardedFor_ne_nil {ledger : Ledger} {req : Nat} (ne : ∀ entry ∈ ledger.discarded, entry.2 ≠ [])
    (present : req ∈ ledger.discarded.map Prod.fst) : ledger.discardedFor req ≠ [] := by
  obtain ⟨entry, mem, rfl⟩ := mem_map.mp present
  intro nothing
  rw [Ledger.discardedFor, flatMap_eq_nil_iff] at nothing
  exact ne entry mem (nothing entry (mem_filter.mpr ⟨mem, by simp⟩))

/-- In every run, a request that no step threw out has in the emitted stream exactly the tokens of
its output. -/
theorem emitted_eq_output_iff (cfg : Config X V L S) (numBlocks blockSize : Nat) (enablePrefixCache : Bool) (zero : V)
    (clients : Nat → Submission) (rng : S) (positive : 0 < blockSize)
    (calls : List Call) :
    ∃ session, (Session.new cfg numBlocks blockSize enablePrefixCache zero clients rng).after cfg calls = .ok session ∧
      ∀ request,
        (Along (Session.call cfg) (fun session call => victimOf cfg session call ≠ some request)
            (Session.new cfg numBlocks blockSize enablePrefixCache zero clients rng) calls →
          session.emittedFor request = (session.engine.requests request).outputTokenIds) ∧
        ((added calls).Nodup → session.emittedFor request = (session.engine.requests request).outputTokenIds →
          Along (Session.call cfg) (fun session call => victimOf cfg session call ≠ some request)
            (Session.new cfg numBlocks blockSize enablePrefixCache zero clients rng) calls) := by
  have stock := @Stock.new X V L S cfg numBlocks blockSize enablePrefixCache zero clients rng positive
  have orderly := @Orderly.new X V L S cfg numBlocks blockSize enablePrefixCache zero clients rng
  obtain ⟨last, ran, idle, steps, victims⟩ := run_steps stock rfl calls
  refine ⟨last.session, ran, fun request => ?_⟩
  have streamed : last.session.emittedFor request =
      last.ledger.discardedFor request ++ (last.engine.requests request).outputTokenIds :=
    (steps.ledgerSteps stock).streamed (fun _ => rfl) request
  have thrownOut := victims request
  simp only [List.map_nil, List.not_mem_nil, false_or] at thrownOut
  constructor
  · intro along
    rw [streamed, discardedFor_eq_nil (fun present => thrownOut.mp present along), List.nil_append]
  · intro distinct same
    by_contra preempted
    have submitted : last.session.submitted = added calls := by simpa [Session.new] using submitted_after ran
    have started : Started last := Started.reaches
      ⟨fun seq member => by simp [Session.new] at member, fun entry member => by simp at member⟩ stock orderly steps
      (submitted ▸ distinct)
    rw [streamed, List.append_left_eq_self] at same
    exact discardedFor_ne_nil started.discarded (thrownOut.mpr preempted) same

theorem emitted_eq_output_iff_competing :
    0 < 1 ∧
      ∃ session, (Session.new counting 6 1 true 0 (competing 3) ()).after counting (competition 3) = .ok session ∧
        ∀ request,
          (Along (Session.call counting) (fun session call => victimOf counting session call ≠ some request)
              (Session.new counting 6 1 true 0 (competing 3) ()) (competition 3) →
            session.emittedFor request = (session.engine.requests request).outputTokenIds) ∧
          ((added (competition 3)).Nodup →
            session.emittedFor request = (session.engine.requests request).outputTokenIds →
            Along (Session.call counting) (fun session call => victimOf counting session call ≠ some request)
              (Session.new counting 6 1 true 0 (competing 3) ()) (competition 3)) :=
  ⟨Nat.one_pos, emitted_eq_output_iff counting 6 1 true 0 (competing 3) () Nat.one_pos (competition 3)⟩

/-- Two requests a pool of five blocks cannot hold together to their ends. -/
def sharing : Nat → Submission
  | 0 => { promptTokenIds := [1], params := { maxTokens := 4 }, requestId := "first", nonempty := by simp }
  | _ => { promptTokenIds := [5], params := { maxTokens := 3 }, requestId := "second", nonempty := five_ne_nil }

/-- Request 1 is thrown out after two tokens and runs again once request 0 is done. -/
theorem emitted_twice_after_preemption :
    Yields ((Session.new counting 5 1 false 0 sharing ()).after counting
        ([.addRequest 0 false, .addRequest 1 false] ++ List.replicate 6 .step)) fun session =>
      (session.engine.requests 1).finishReason = some .length ∧
      (session.engine.requests 1).outputTokenIds = [6, 7, 8] ∧ session.emittedFor 1 = [6, 7, 6, 7, 8] := by
  decide +kernel

end Nanoserve.Verified
