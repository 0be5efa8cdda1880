import Nanoserve.Verified.Lifecycle

/-! # Token budgets

No request gets more tokens than it asked for.
-/

namespace Nanoserve.Verified

open Engine Lib List Function Machine
open ContinuousBatchingEngine

variable {X V L S : Type} {cfg : Config X V L S}

/-! ## Sequences and their requests -/

structure Tallied (Running Pending : Sequence → Request → Prop) (All : Request → Prop) (machine : Machine V S) : Prop where
  running : ∀ seq ∈ machine.engine.running, Running seq (machine.engine.requests seq.request)
  pending : ∀ row ∈ machine.pending, Pending row.1 (machine.engine.requests row.1.request)
  all : ∀ request, All (machine.engine.requests request)

structure Rules (Running Pending : Sequence → Request → Prop) (All : Request → Prop) : Prop where
  -- Why a request ended or was refused makes no difference.
  running : ∀ seq req finishReason rejectionReason, Running seq req → Running seq { req with finishReason, rejectionReason }
  pending : ∀ seq req finishReason rejectionReason, Pending seq req → Pending seq { req with finishReason, rejectionReason }
  all : ∀ req finishReason rejectionReason, All req → All { req with finishReason, rejectionReason }
  prefilled : ∀ seq req, req.outputTokenIds = [] → seq.cache.numTokens = req.promptLen → Pending seq req
  grown : ∀ seq req next, next.cache.numTokens = seq.cache.numTokens + 1 → Running seq req → Pending next req
  kept : ∀ seq req token, req.outputLen + 1 < req.params.maxTokens → Pending seq req →
    Running { seq with nextToken := token } (req.recordToken token)
  recorded : ∀ seq req token, Pending seq req → All req → All (req.recordToken token)
  dropped : ∀ req, All req → All { req with outputTokenIds := [] }

namespace Tallied

variable {Running Pending : Sequence → Request → Prop} {All : Request → Prop} {m next : Machine V S}

theorem frame (rules : Rules Running Pending All) (tallied : Tallied Running Pending All m)
    (same : ∀ req, ∃ finishReason rejectionReason,
      next.engine.requests req = { m.engine.requests req with finishReason, rejectionReason })
    (running : ∀ seq ∈ next.engine.running, seq ∈ m.engine.running)
    (pending : ∀ row ∈ next.pending, row ∈ m.pending) : Tallied Running Pending All next := by
  refine ⟨fun seq mem => ?_, fun row mem => ?_, fun req => ?_⟩
  · obtain ⟨_, _, changed⟩ := same seq.request
    rw [changed]
    exact rules.running seq _ _ _ (tallied.running seq (running seq mem))
  · obtain ⟨_, _, changed⟩ := same row.1.request
    rw [changed]
    exact rules.pending row.1 _ _ _ (tallied.pending row (pending row mem))
  · obtain ⟨_, _, changed⟩ := same req
    rw [changed]
    exact rules.all _ _ _ (tallied.all req)

theorem relabel {requests : Nat → Request} {changed : Nat} {finishReason : Option FinishReason} {rejectionReason : String}
    (req : Nat) : ∃ finish rejection,
      update requests changed { requests changed with finishReason, rejectionReason } req =
        { requests req with finishReason := finish, rejectionReason := rejection } := by
  by_cases here : req = changed
  · subst here
    exact ⟨_, _, update_self ..⟩
  · exact ⟨(requests req).finishReason, (requests req).rejectionReason, update_of_ne here ..⟩

theorem change (tallied : Tallied Running Pending All m) {changed : Nat} {value : Request}
    (requests : next.engine.requests = update m.engine.requests changed value)
    (running : ∀ seq ∈ next.engine.running,
      seq ∈ m.engine.running ∧ seq.request ≠ changed ∨ seq.request = changed ∧ Running seq value)
    (pending : ∀ row ∈ next.pending, row ∈ m.pending ∧ row.1.request ≠ changed) (all : All value) :
    Tallied Running Pending All next := by
  refine ⟨fun seq mem => ?_, fun row mem => ?_, fun req => ?_⟩
  · rw [requests]
    rcases running seq mem with ⟨was, apart⟩ | ⟨own, holds⟩
    · rw [update_of_ne apart]
      exact tallied.running seq was
    · rw [own, update_self]
      exact holds
  · obtain ⟨was, apart⟩ := pending row mem
    rw [requests, update_of_ne apart]
    exact tallied.pending row was
  · rw [requests]
    by_cases here : req = changed
    · rw [here, update_self]
      exact all
    · rw [update_of_ne here]
      exact tallied.all req

theorem transition (rules : Rules Running Pending All) (tallied : Tallied Running Pending All m)
    (stock : Stock cfg m) (orderly : Orderly cfg.maxBatchSize m.ledger) (fresh : m.ledger.Fresh)
    (distinct : m.session.submitted.Nodup) (step : Transition cfg m next) : Tallied Running Pending All next := by
  have once := orderly.active_nodup distinct
  have unchanged : ∀ req, ∃ finishReason rejectionReason,
      m.engine.requests req = { m.engine.requests req with finishReason, rejectionReason } := fun _ => ⟨_, _, rfl⟩
  cases step with
  | submit =>
    simp only [addRequest]
    split
    case h_1 =>
      refine tallied.frame rules (fun req => ?_) (fun _ mem => mem) (fun _ mem => mem)
      simp only [reject, recordFinished, finish, update_idem, update_self]
      exact relabel req
    case h_2 => exact tallied.frame rules unchanged (fun _ mem => mem) (fun _ mem => mem)
  | cancelRunning _ _ _ _ _ runningEq =>
    exact tallied.frame rules relabel (fun _ mem => mem_of_taken_out runningEq mem) (fun _ mem => mem)
  | cancelWaiting => exact tallied.frame rules relabel (fun _ mem => mem) (fun _ mem => mem)
  | makeRoom _ _ _ made =>
    obtain ⟨_, _, rfl⟩ := makeRoom_requests made
    exact tallied.frame rules unchanged (fun _ mem => mem) (fun _ mem => mem)
  | reject => exact tallied.frame rules relabel (fun _ mem => mem) (fun _ mem => mem)
  | prefill req _ _ _ _ _ _ _ queuedEq _ room prefilled =>
    have queued := orderly.queued distinct (show req ∈ m.ledger.waiting by simp [ledger, queuedEq])
    refine ⟨tallied.running, fun row mem => ?_, tallied.all⟩
    rw [mem_singleton.mp mem]
    exact rules.prefilled _ _ (fresh req queued.1 queued.2) (stock.prefilled_of room prefilled).numTokens
  | decode _ _ batch _ _ idle _ prepared ran =>
    obtain ⟨refilled, -⟩ := stock.decoded idle prepared ran
    refine ⟨fun seq mem => by simp [withEngine] at mem, fun row mem => ?_, tallied.all⟩
    -- Every row of the batch was a running sequence.
    obtain ⟨was, wasRunning, request, numTokens⟩ := refilled.of_mem (of_mem_zip mem).1
    rw [request]
    exact rules.grown was _ row.1 numTokens (tallied.running was wasRunning)
  | keep seq token _ pendingEq _ room =>
    obtain ⟨fromRunning, fromPending⟩ := pending_apart once pendingEq
    have here := tallied.pending (seq, token) (by simp [pendingEq])
    refine tallied.change rfl (fun other mem => ?_) (fun row mem => ⟨by simp [pendingEq, mem], fromPending row mem⟩)
      (rules.recorded seq _ token here (tallied.all _))
    rcases mem_append.mp mem with old | new
    · exact .inl ⟨old, fromRunning other old⟩
    · rw [mem_singleton.mp new]
      exact .inr ⟨rfl, rules.kept seq _ token room here⟩
  | fill seq token _ _ _ pendingEq =>
    obtain ⟨fromRunning, fromPending⟩ := pending_apart once pendingEq
    have here := tallied.pending (seq, token) (by simp [pendingEq])
    refine tallied.change (by simp only [withEngine, recordFinished, finish, record, update_idem, update_self]; rfl)
      (fun other mem => .inl ⟨mem, fromRunning other mem⟩)
      (fun row mem => ⟨by rw [pendingEq]; exact mem_cons_of_mem _ mem, fromPending row mem⟩)
      (rules.all _ _ _ (rules.recorded seq _ token here (tallied.all _)))
  | stop _ _ _ _ _ pendingEq =>
    exact tallied.frame rules relabel (fun _ mem => mem)
      (fun row mem => by rw [pendingEq]; exact mem_cons_of_mem _ mem)
  | preempt front victim _ _ idle runningEq =>
    have apart : ∀ other ∈ front, other.request ≠ victim.request := by
      have activeEq : m.ledger.active = front.map Sequence.request ++ [victim.request] := by
        simp [ledger, seqs, idle, runningEq]
      rw [activeEq, nodup_append] at once
      exact fun other mem => once.2.2 _ (mem_map_of_mem mem) _ (mem_singleton_self _)
    refine tallied.change rfl (fun other mem => .inl ⟨?_, apart other mem⟩) (fun row mem => ?_)
      (rules.dropped _ (tallied.all _))
    · rw [runningEq]
      exact mem_append_left _ mem
    · have nothing : row ∈ m.pending := mem
      rw [idle] at nothing
      cases nothing
  | _ => exact tallied.frame rules unchanged (fun _ mem => mem) (fun _ mem => mem)

theorem reaches (rules : Rules Running Pending All) (tallied : Tallied Running Pending All m) (stock : Stock cfg m)
    (orderly : Orderly cfg.maxBatchSize m.ledger) (fresh : m.ledger.Fresh) (steps : Reaches cfg m next)
    (distinct : next.session.submitted.Nodup) : Tallied Running Pending All next := by
  induction steps with
  | refl => exact tallied
  | tail steps last ih =>
    have ledgerSteps := Reaches.ledgerSteps stock steps
    have distinctBefore := distinct.sublist (last.ledgerSteps (stock.reaches steps)).submitted_grows.sublist
    exact (ih distinctBefore).transition rules (stock.reaches steps) (orderly.steps ledgerSteps)
      (ledgerSteps.fresh fresh) distinctBefore last

end Tallied

abbrev Budgeted (machine : Machine V S) : Prop :=
  Tallied (fun _ req => req.outputLen < req.params.maxTokens)
    (fun _ req => 1 ≤ req.params.maxTokens → req.outputLen < req.params.maxTokens)
    (fun req => 1 ≤ req.params.maxTokens → req.outputLen ≤ req.params.maxTokens) machine

theorem budgetRules : Rules (fun _ req => req.outputLen < req.params.maxTokens)
    (fun _ req => 1 ≤ req.params.maxTokens → req.outputLen < req.params.maxTokens)
    (fun req => 1 ≤ req.params.maxTokens → req.outputLen ≤ req.params.maxTokens) where
  running _ _ _ _ left := left
  pending _ _ _ _ left := left
  all _ _ _ spent := spent
  prefilled _ _ untouched _ asked := by
    rw [Request.outputLen, untouched]
    exact asked
  grown _ _ _ _ left _ := left
  kept _ _ _ room _ := by simpa using room
  recorded _ _ _ left _ asked := by
    rw [Request.outputLen_recordToken]
    exact left asked
  dropped _ _ _ := Nat.zero_le _

namespace Budgeted

variable {m next : Machine V S}

theorem reaches (budgeted : Budgeted m) (stock : Stock cfg m) (orderly : Orderly cfg.maxBatchSize m.ledger)
    (fresh : m.ledger.Fresh) (steps : Reaches cfg m next) (distinct : next.session.submitted.Nodup) : Budgeted next :=
  Tallied.reaches budgetRules budgeted stock orderly fresh steps distinct

theorem new (numBlocks size : Nat) (caching : Bool) (zero : V) (clients : Nat → Submission) (rng : S) :
    Budgeted { session := Session.new cfg numBlocks size caching zero clients rng } where
  running seq mem := by simp [Session.new] at mem
  pending row mem := by simp at mem
  all req _ := Nat.zero_le _

end Budgeted

end Nanoserve.Verified
