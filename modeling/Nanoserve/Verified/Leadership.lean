import Nanoserve.Lib.Runs
import Nanoserve.Router.Election
import Mathlib.Data.List.Basic

/-! # One writer at a time

The election makes one candidate the holder at a time.
-/

namespace Nanoserve.Verified

open Lib Router List

variable {id : String} {key : LeaderKey}

/-- Every decision landed while its sender was the holder. -/
structure OneWriter (cluster : Autoscalers) : Prop where
  held : ∀ landed ∈ cluster.landed, landed.holder = some landed.put.key ∧
    landed.put.key.campaigner = landed.put.target.decidedBy
  inOrder : cluster.landed.Pairwise fun earlier later => earlier.put.key.rev ≤ later.put.key.rev
  latest : cluster.desired = cluster.landed.getLast?.map fun landed => landed.put.target

theorem OneWriter.frame {cluster next : Autoscalers} (writer : OneWriter cluster) (landed : next.landed = cluster.landed)
    (desired : next.desired = cluster.desired) : OneWriter next := by
  refine ⟨?_, ?_, ?_⟩
  · rw [landed]
    exact writer.held
  · rw [landed]
    exact writer.inOrder
  · rw [landed, desired]
    exact writer.latest

/-- The key an instance goes by. -/
def keyOf : CampaignPhase → Option LeaderKey
  | .idle | .session _ => none
  | .campaigning key | .elected key | .leading key | .scaling key | .cancelled key => some key

/-- A decision is made only by the holder, and the key it is made under is not given up before it
has landed or is lost. -/
def Fenced (cluster : Autoscalers) : ElectionEvent → Prop
  | .scale id _ _ _ => ∀ key ∈ keyOf (cluster.phase id), cluster.holder = some key
  | .resign id true => ∀ key ∈ keyOf (cluster.phase id), ∀ put ∈ cluster.inFlight, put.key ≠ key
  | .expire lease => ∀ put ∈ cluster.inFlight, put.key.lease ≠ lease
  | _ => True

instance decidableFenced (cluster : Autoscalers) : (event : ElectionEvent) → Decidable (Fenced cluster event)
  | .scale id _ _ _ => inferInstanceAs (Decidable (∀ key ∈ keyOf (cluster.phase id), cluster.holder = some key))
  | .resign id true =>
    inferInstanceAs (Decidable (∀ key ∈ keyOf (cluster.phase id), ∀ put ∈ cluster.inFlight, put.key ≠ key))
  | .expire lease => inferInstanceAs (Decidable (∀ put ∈ cluster.inFlight, put.key.lease ≠ lease))
  | .resign _ false | .connect _ | .campaign _ | .elect _ | .lead _ | .scaled _ | .notice _ | .fail _ | .deliver _
  | .lose _ => .isTrue trivial

structure Succession (cluster : Autoscalers) : Prop where
  writer : OneWriter cluster
  sorted : cluster.keys.Pairwise fun first second => first.rev < second.rev
  created : ∀ key ∈ cluster.keys, key.rev < cluster.nextRev
  own : ∀ id key, keyOf (cluster.phase id) = some key → key.campaigner = id
  sent : ∀ put ∈ cluster.inFlight, cluster.holder = some put.key ∧ put.key.campaigner = put.target.decidedBy
  before : ∀ landed ∈ cluster.landed, landed.put.key.rev < cluster.nextRev ∧
    ∀ key ∈ cluster.keys, landed.put.key.rev ≤ key.rev

namespace Succession

variable {cluster : Autoscalers}

theorem initial : Succession {} := by
  refine ⟨⟨?_, List.Pairwise.nil, rfl⟩, List.Pairwise.nil, ?_, ?_, ?_, ?_⟩
  · simp
  · simp
  · simp [keyOf]
  · simp
  · simp

section

variable (succession : Succession cluster)
include succession

theorem withPhase {phase : CampaignPhase}
    (own : ∀ key, keyOf phase = some key → key.campaigner = id) : Succession (cluster.withPhase id phase) := by
  refine ⟨succession.writer.frame rfl rfl, succession.sorted, succession.created, ?_,
    succession.sent, succession.before⟩
  intro other key isOwn
  by_cases same : other = id
  · subst same
    simp only [Autoscalers.withPhase, Function.update_self] at isOwn
    exact own key isOwn
  · simp only [Autoscalers.withPhase, Function.update_of_ne same] at isOwn
    exact succession.own other key isOwn

theorem goOn {phase : CampaignPhase} (was : keyOf (cluster.phase id) = some key)
    (isNow : keyOf phase = some key) : Succession (cluster.withPhase id phase) := by
  apply succession.withPhase
  intro other same
  rw [isNow] at same
  cases same
  exact succession.own id key was

theorem toIdle (id : String) : Succession (cluster.withPhase id .idle) := by
  apply succession.withPhase
  intro key isOwn
  cases isOwn

theorem connect (leases : List Nat) (nextLease : Nat) :
    Succession { cluster with leases, nextLease } :=
  ⟨succession.writer.frame rfl rfl, succession.sorted, succession.created, succession.own,
    succession.sent, succession.before⟩

theorem keepKeys {keep : LeaderKey → Bool}
    (kept : ∀ put ∈ cluster.inFlight, keep put.key = true) :
    Succession { cluster with keys := cluster.keys.filter keep } := by
  refine ⟨succession.writer.frame rfl rfl, succession.sorted.filter _, ?_,
    succession.own, ?_, ?_⟩
  · intro key mem
    exact succession.created key (mem_of_mem_filter mem)
  · -- The first key is that of a decision under way, if there is one, and so it stays.
    intro put mem
    obtain ⟨first, named⟩ := succession.sent put mem
    refine ⟨?_, named⟩
    obtain ⟨_, keys⟩ := head?_eq_some_iff.mp first
    show (cluster.keys.filter keep).head? = some put.key
    rw [keys, filter_cons_of_pos (kept put mem), head?_cons]
  · intro landed mem
    obtain ⟨early, upTo⟩ := succession.before landed mem
    exact ⟨early, fun key isKept => upTo key (mem_of_mem_filter isKept)⟩

theorem endLease {lease : Nat} (fenced : ∀ put ∈ cluster.inFlight, put.key.lease ≠ lease) :
    Succession (cluster.endLease lease) := by
  have kept : Succession { cluster with keys := cluster.keys.filter fun key => key.lease ≠ lease } := by
    apply succession.keepKeys
    simpa using fenced
  exact kept.connect _ _

theorem deleteKey (fenced : ∀ put ∈ cluster.inFlight, put.key ≠ key) :
    Succession (cluster.deleteKey key) := by
  apply succession.keepKeys
  simpa using fenced

theorem newKey (fresh : key.rev = cluster.nextRev) :
    Succession { cluster with keys := cluster.keys ++ [key], nextRev := cluster.nextRev + 1 } := by
  refine ⟨succession.writer.frame rfl rfl, ?_, ?_, succession.own, ?_, ?_⟩
  · rw [pairwise_append]
    refine ⟨succession.sorted, pairwise_singleton _ _, ?_⟩
    intro first isFirst second isSecond
    cases mem_singleton.mp isSecond
    rw [fresh]
    exact succession.created first isFirst
  · intro other mem
    show other.rev < cluster.nextRev + 1
    cases mem_append.mp mem with
    | inl old => exact Nat.lt_succ_of_lt (succession.created other old)
    | inr => grind
  · -- A new key goes to the end of the line.
    intro put mem
    obtain ⟨first, named⟩ := succession.sent put mem
    obtain ⟨_, keys⟩ := head?_eq_some_iff.mp first
    refine ⟨?_, named⟩
    show (cluster.keys ++ [key]).head? = some put.key
    rw [keys, cons_append, head?_cons]
  · intro landed mem
    obtain ⟨early, upTo⟩ := succession.before landed mem
    refine ⟨Nat.lt_succ_of_lt early, ?_⟩
    intro other isKey
    cases mem_append.mp isKey with
    | inl old => exact upTo other old
    | inr => grind

theorem campaign (id : String) (lease : Nat) : Succession (cluster.campaign id lease) := by
  rw [Autoscalers.campaign]
  split
  · apply (succession.newKey rfl).withPhase
    intro key isOwn
    cases isOwn
    rfl
  · exact succession.toIdle id

theorem scale (leading : cluster.phase id = .leading key)
    (fenced : cluster.holder = some key) (desired : Int) (reason : String) (now : Nat) :
    Succession (cluster.scale id key desired reason now) := by
  have named : key.campaigner = id := succession.own id key (by rw [leading]; rfl)
  have sent : Succession { cluster with
      inFlight := cluster.inFlight ++ [⟨key, { desired, reason, decidedBy := id, decidedAt := now }⟩] } := by
    refine ⟨succession.writer.frame rfl rfl, succession.sorted, succession.created,
      succession.own, ?_, succession.before⟩
    intro put mem
    cases mem_append.mp mem with
    | inl old => exact succession.sent put old
    | inr new =>
      cases mem_singleton.mp new
      exact ⟨fenced, named⟩
  apply sent.withPhase
  intro other isOwn
  cases isOwn
  exact named

theorem fewer (index : Nat) :
    Succession { cluster with inFlight := cluster.inFlight.eraseIdx index } :=
  ⟨succession.writer.frame rfl rfl, succession.sorted, succession.created, succession.own,
    fun put mem => succession.sent put (mem_of_mem_eraseIdx mem), succession.before⟩

theorem rev_le {first : LeaderKey} (isFirst : cluster.holder = some first) :
    ∀ key ∈ cluster.keys, first.rev ≤ key.rev := by
  obtain ⟨_, keys⟩ := head?_eq_some_iff.mp isFirst
  have sorted := succession.sorted
  rw [keys, pairwise_cons] at sorted
  intro key mem
  rw [keys] at mem
  cases mem_cons.mp mem with
  | inl same => exact Nat.le_of_eq (congrArg _ same.symm)
  | inr later => exact Nat.le_of_lt (sorted.1 key later)

theorem deliver {index : Nat} {put : ScalePut} (found : cluster.inFlight[index]? = some put) :
    Succession (cluster.deliver index put) := by
  obtain ⟨first, _⟩ := succession.sent put (mem_of_getElem? found)
  have isKey : put.key ∈ cluster.keys := mem_of_mem_head? first
  have left := succession.fewer index
  refine ⟨⟨?_, ?_, ?_⟩, left.sorted, left.created, left.own, left.sent, ?_⟩
  · intro landed mem
    cases mem_append.mp mem with
    | inl old => exact succession.writer.held landed old
    | inr => grind
  · simp only [Autoscalers.deliver]
    rw [pairwise_append]
    refine ⟨succession.writer.inOrder, pairwise_singleton _ _, ?_⟩
    intro earlier isEarlier later isLater
    cases mem_singleton.mp isLater
    exact (succession.before earlier isEarlier).2 put.key isKey
  · simp only [Autoscalers.deliver, getLast?_concat, Option.map_some]
  · intro landed mem
    cases mem_append.mp mem with
    | inl old => exact succession.before landed old
    | inr new =>
      cases mem_singleton.mp new
      exact ⟨succession.created _ isKey, succession.rev_le first⟩

theorem step {event : ElectionEvent} (fenced : Fenced cluster event) {next : Autoscalers}
    (went : cluster.step event = .ok next) : Succession next := by
  cases event with
  | connect =>
    simp only [Autoscalers.step] at went
    split at went
    case h_1 =>
      cases went
      apply (succession.connect _ _).withPhase
      intro key isOwn
      cases isOwn
    case h_2 => cases went
  | campaign id =>
    simp only [Autoscalers.step] at went
    split at went
    case h_1 lease phase =>
      cases went
      exact succession.campaign id lease
    case h_2 => cases went
  | elect =>
    simp only [Autoscalers.step] at went
    split at went
    case h_1 key phase =>
      split at went
      · cases went
        exact succession.goOn (by rw [phase]; rfl) rfl
      · cases went
    case h_2 => cases went
  | scale _ desired reason now =>
    simp only [Autoscalers.step] at went
    split at went
    case h_1 key phase =>
      cases went
      exact succession.scale phase (fenced key (by rw [phase]; rfl)) desired reason now
    case h_2 => cases went
  | lead id | scaled id =>
    simp only [Autoscalers.step] at went
    split at went
    case h_1 key phase =>
      cases went
      exact succession.goOn (by rw [phase]; rfl) rfl
    case h_2 => cases went
  | notice =>
    simp only [Autoscalers.step] at went
    split at went
    case h_1 key phase | h_2 key phase =>
      cases went
      exact succession.goOn (by rw [phase]; rfl) rfl
    case h_3 => cases went
  | resign id answered =>
    simp only [Autoscalers.step] at went
    split at went
    case h_1 key phase =>
      cases went
      -- A resignation that does not get through leaves the key until the lease ends.
      cases answered with
      | true => exact (succession.deleteKey (fenced key (by rw [phase]; rfl))).toIdle id
      | false => exact succession.toIdle id
    case h_2 => cases went
  | fail id =>
    simp only [Autoscalers.step] at went
    split at went
    case h_1 | h_2 | h_3 =>
      cases went
      exact succession.toIdle id
    case h_4 => cases went
  | expire =>
    cases went
    exact succession.endLease fenced
  | deliver =>
    simp only [Autoscalers.step] at went
    split at went
    case h_1 _ found =>
      cases went
      exact succession.deliver found
    case h_2 => cases went
  | lose index =>
    simp only [Autoscalers.step] at went
    split at went
    · cases went
      exact succession.fewer index
    · cases went

end

end Succession

/-- As long as decisions are made by the holder and have landed or are lost when its key goes, there
is one writer at a time. -/
theorem one_writer_at_a_time (events : List ElectionEvent) (cluster : Autoscalers)
    (ran : run Autoscalers.step {} events = .ok cluster) (fenced : Along Autoscalers.step Fenced {} events) :
    OneWriter cluster := by
  have succession : Succession cluster :=
    run_preserves (fun _ _ _ held isFenced stepped => Succession.step held isFenced stepped) .initial fenced ran
  exact succession.writer

def joins (id : String) : List ElectionEvent := [.connect id, .campaign id]

def takesOver (id : String) : List ElectionEvent := [.elect id, .lead id]

/-- The first candidate leads, decides and resigns. -/
def handover : List ElectionEvent :=
  joins "a" ++ joins "b" ++ takesOver "a" ++
    [.scale "a" 3 "busy" 0, .deliver 0, .scaled "a", .notice "a", .resign "a" true] ++
    takesOver "b" ++ [.scale "b" 2 "idle" 9, .deliver 0]

theorem one_writer_at_a_time_over_handover :
    Yields (run Autoscalers.step {} handover) fun cluster => cluster.landed.length = 2 ∧ OneWriter cluster := by
  have two : Yields (run Autoscalers.step {} handover) fun cluster => cluster.landed.length = 2 := by decide +kernel
  obtain ⟨cluster, ran, length⟩ := two
  exact ⟨cluster, ran, length, one_writer_at_a_time handover cluster ran (by decide +kernel)⟩

/-- The lease of the first leader ends while its decision is under way. -/
theorem late_decision_overwrites :
    Yields (run Autoscalers.step {} (joins "a" ++ joins "b" ++ takesOver "a" ++ [.scale "a" 3 "busy" 0, .expire 0] ++
        takesOver "b" ++ [.scale "b" 2 "idle" 9, .deliver 1, .deliver 0])) fun cluster =>
      cluster.landed.map (fun landed => (landed.put.target.decidedBy, landed.holder.map LeaderKey.campaigner)) =
          [("b", some "b"), ("a", some "b")] ∧
        cluster.desired = some { desired := 3, reason := "busy", decidedBy := "a", decidedAt := 0 } := by
  decide +kernel

end Nanoserve.Verified
