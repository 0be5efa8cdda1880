import Nanoserve.Verified.ReplicaRun

/-! # One event, seen from one call

`step_turn` says once what an event can do to a call of `Generate`.
-/

namespace Nanoserve.Verified

open Engine Lib Proto
open Model (BPETokenizer Text)

variable {X V L S : Type} {cfg : Config X V L S} {tok : BPETokenizer} {inc : Nat → Incoming}
variable {rep next : Replica V S}

structure Rests (before after : Rpc) : Prop where
  stage : after.stage = before.stage
  cursor : after.cursor = before.cursor
  yielded : after.yielded = before.yielded

theorem Rests.refl (rpc : Rpc) : Rests rpc rpc := ⟨rfl, rfl, rfl⟩

/-- The answer of a replica that is draining. -/
def drainingFinish : Finish := { reason := .rejected, outputTokens := 0, message := "replica is draining" }

def duplicateFinish (outputTokens : Nat) : Finish :=
  { reason := .cancelled, outputTokens, message := "duplicate request_id" }

inductive Turn (tok : BPETokenizer) (incoming : Nat → Incoming) (replica : Replica V S) (call : Nat) :
    Event → Rpc → Prop where
  | rests {event : Event} {rpc : Rpc} : Rests (replica.rpcs call) rpc → Turn tok incoming replica call event rpc
  | refused {late : Bool} : (replica.rpcs call).stage = .absent → replica.draining = true →
      Turn tok incoming replica call (.arrive call late) ((replica.rpcs call).yield [.finish drainingFinish] .ended)
  | follows {late : Bool} {owner : Nat} : (replica.rpcs call).stage = .absent → replica.draining = false →
      replica.inflight.get? (incoming call).reqId = some owner →
      Turn tok incoming replica call (.arrive call late)
        ((replica.rpcs call).yield (replica.rpcs owner).replay (.following owner))
  | answered {late : Bool} {rpc : Rpc} {finish : Finish} : (replica.rpcs call).stage = .absent →
      replica.draining = false → replica.inflight.get? (incoming call).reqId = none → rpc.stage = .ended →
      rpc.cursor = (replica.rpcs call).cursor → rpc.yielded = (replica.rpcs call).yielded ++ [.finish finish] →
      Turn tok incoming replica call (.arrive call late) rpc
  | opened {late : Bool} {rpc : Rpc} : (replica.rpcs call).stage = .absent → replica.draining = false →
      replica.inflight.get? (incoming call).reqId = none → rpc.stage = .streaming →
      rpc.cursor = (replica.rpcs call).cursor → rpc.yielded = (replica.rpcs call).yielded →
      Turn tok incoming replica call (.arrive call late) rpc
  | looped {cancelled : Bool} : (replica.rpcs call).stage = .streaming →
      Turn tok incoming replica call (.poll call cancelled)
        ((replica.rpcs call).loop tok (incoming call).base cancelled)
  | followed {cancelled : Bool} {owner : Nat} : (replica.rpcs call).stage = .following owner →
      Turn tok incoming replica call (.poll call cancelled)
        ((replica.rpcs call).yield [.finish (duplicateFinish (replica.rpcs owner).cursor.emitted.length)] .ended)
  | left : (replica.rpcs call).stage = .streaming ∨ (replica.rpcs call).stage = .leaving →
      Turn tok incoming replica call (.leave call) { replica.rpcs call with stage := .closing }
  | closed {rpc : Rpc} : (replica.rpcs call).stage = .closing → rpc.stage = .ended →
      rpc.cursor = (replica.rpcs call).cursor → rpc.yielded = (replica.rpcs call).yielded →
      Turn tok incoming replica call (.close call) rpc

section Parts

theorem fanout_rests (rep : Replica V S) (call : Nat) : Rests (rep.rpcs call) (rep.fanout.rpcs call) := by
  obtain ⟨_, eq⟩ := fanout_eq rep
  rw [eq]
  exact ⟨rfl, rfl, rfl⟩

theorem fanout_frame (rep : Replica V S) :
    rep.fanout.inflight = rep.inflight ∧ rep.fanout.draining = rep.draining ∧
      rep.fanout.session.submitted = rep.session.submitted := by
  obtain ⟨_, eq⟩ := fanout_eq rep
  rw [eq]
  exact ⟨rfl, rfl, rfl⟩

theorem onEngine_inv {call : Call} (worked : rep.onEngine cfg call = .ok next) :
    ∃ sess, rep.session.call cfg call = .ok sess ∧ next = { rep with session := sess } := by
  simp only [Replica.onEngine] at worked
  split at worked
  case h_1 => cases worked
  case h_2 sess called =>
    cases worked
    exact ⟨sess, called, rfl⟩

theorem set_rpcs_self (rep : Replica V S) (call : Nat) (rpc : Rpc) : (rep.set call rpc).rpcs call = rpc := by
  simp [Replica.set]

theorem set_rpcs_other (rep : Replica V S) {call other : Nat} (rpc : Rpc) (differs : other ≠ call) :
    (rep.set call rpc).rpcs other = rep.rpcs other := by
  simp [Replica.set, Function.update_of_ne differs]

theorem submit_inv {call : Nat} {late : Bool} (submitted : rep.submit cfg inc call late = .ok next) :
    (∀ other, other ≠ call → Rests (rep.rpcs other) (next.rpcs other)) ∧
      (next.rpcs call).cursor = (rep.rpcs call).cursor ∧
      ((next.rpcs call).stage = .streaming ∧ (next.rpcs call).yielded = (rep.rpcs call).yielded ∨
        (next.rpcs call).stage = .ended ∧
          ∃ finish, (next.rpcs call).yielded = (rep.rpcs call).yielded ++ [.finish finish]) := by
  simp only [Replica.submit] at submitted
  split at submitted
  case h_1 => cases submitted
  case h_2 _ worked =>
    obtain ⟨sess, -, rfl⟩ := onEngine_inv worked
    let middle : Replica V S := { rep.register inc call with session := sess }
    have ours := fanout_rests middle call
    have self : middle.rpcs call = { rep.rpcs call with stage := .streaming } := set_rpcs_self _ _ _
    have others : ∀ other, other ≠ call → Rests (rep.rpcs other) (middle.fanout.rpcs other) := by
      intro other differs
      have rests := fanout_rests middle other
      have same : middle.rpcs other = rep.rpcs other := set_rpcs_other _ _ differs
      rwa [same] at rests
    rw [self] at ours
    split at submitted
    · cases submitted
      refine ⟨fun other differs => ?_, ?_, .inr ⟨?_, ?_⟩⟩
      · rw [set_rpcs_other _ _ differs]
        exact others other differs
      · rw [set_rpcs_self]
        exact ours.cursor
      · rw [set_rpcs_self]
        rfl
      · rw [set_rpcs_self]
        exact ⟨_, congrArg (· ++ [GenerateChunk.finish _]) ours.yielded⟩
    · cases submitted
      exact ⟨others, ours.cursor, .inl ⟨ours.stage, ours.yielded⟩⟩

end Parts

/-! ## One event -/

theorem generate_turn {arriving : Nat} {late : Bool} (absent : (rep.rpcs arriving).stage = .absent)
    (generated : rep.generate cfg tok inc arriving late = .ok next) (call : Nat) :
    Turn tok inc rep call (.arrive arriving late) (next.rpcs call) := by
  -- Whatever is answered to the new call, every other call keeps its variables.
  have others : ∀ rpc, call ≠ arriving →
      Turn tok inc rep call (.arrive arriving late) ((rep.set arriving rpc).rpcs call) := by
    intro rpc differs
    rw [set_rpcs_other _ _ differs]
    exact .rests (.refl _)
  simp only [Replica.generate] at generated
  split at generated
  case isTrue draining =>
    cases generated
    by_cases same : call = arriving
    · subst same
      rw [set_rpcs_self]
      exact .refused absent draining
    · exact others _ same
  case isFalse serving =>
    have open_ : rep.draining = false := by simpa using serving
    split at generated
    case h_1 _ found =>
      cases generated
      by_cases same : call = arriving
      · subst same
        rw [set_rpcs_self]
        exact .follows absent open_ found
      · exact others _ same
    case h_2 unknown =>
      split at generated
      · cases generated
        by_cases same : call = arriving
        · subst same
          rw [set_rpcs_self]
          exact .answered absent open_ unknown rfl rfl rfl
        · exact others _ same
      · obtain ⟨rest, cursor, ⟨stage, yielded⟩ | ⟨stage, _, yielded⟩⟩ := submit_inv generated
        all_goals by_cases same : call = arriving
        · subst same
          exact .opened absent open_ unknown stage cursor yielded
        · exact .rests (rest call same)
        · subst same
          exact .answered absent open_ unknown stage cursor yielded
        · exact .rests (rest call same)

theorem step_turn {event : Event} (went : rep.step cfg tok inc event = .ok next) (call : Nat) :
    Turn tok inc rep call event (next.rpcs call) := by
  cases event with
  | arrive =>
    simp only [Replica.step] at went
    split at went
    case isTrue absent => exact generate_turn absent went call
    case isFalse =>
      cases went
      exact .rests (.refl _)
  | poll polled =>
    cases went
    simp only [Replica.poll]
    split
    case h_1 streaming =>
      by_cases same : call = polled
      · subst same
        rw [set_rpcs_self]
        exact .looped streaming
      · rw [set_rpcs_other _ _ same]
        exact .rests (.refl _)
    case h_2 _ following =>
      by_cases same : call = polled
      · subst same
        rw [set_rpcs_self]
        exact .followed following
      · rw [set_rpcs_other _ _ same]
        exact .rests (.refl _)
    case h_3 => exact .rests (.refl _)
  | leave leaving =>
    simp only [Replica.step] at went
    split at went
    case isTrue inside =>
      obtain ⟨sess, -, rfl⟩ := onEngine_inv went
      by_cases same : call = leaving
      · subst same
        rw [set_rpcs_self]
        exact .left inside
      · dsimp only
        rw [set_rpcs_other _ _ same]
        exact .rests (.refl _)
    case isFalse =>
      cases went
      exact .rests (.refl _)
  | close closing =>
    simp only [Replica.step] at went
    split at went
    case isTrue inside =>
      cases went
      have rests := fanout_rests rep call
      by_cases same : call = closing
      · subst same
        rw [set_rpcs_self]
        exact .closed inside rfl rests.cursor rests.yielded
      · rw [set_rpcs_other _ _ same]
        exact .rests rests
    case isFalse =>
      cases went
      exact .rests (.refl _)
  | step =>
    obtain ⟨sess, -, rfl⟩ := onEngine_inv went
    exact .rests (.refl _)
  | applyCancellations =>
    obtain ⟨sess, -, rfl⟩ := onEngine_inv went
    exact .rests (.refl _)
  | fanout =>
    cases went
    exact .rests (fanout_rests rep call)
  | drain =>
    cases went
    exact .rests (.refl _)

/-! ## What the calls share -/

structure SameBooks (before after : Replica V S) : Prop where
  inflight : after.inflight = before.inflight
  draining : after.draining = before.draining
  submitted : after.session.submitted = before.session.submitted

inductive SharedStep (incoming : Nat → Incoming) (replica next : Replica V S) : Event → Prop where
  | same {event : Event} (books : SameBooks replica next)
    (leavesOpen : ∀ call, event = .close call → (replica.rpcs call).stage ≠ .closing) :
      SharedStep incoming replica next event
  | joined {call : Nat} {late : Bool} (absent : (replica.rpcs call).stage = .absent)
    (stage : (next.rpcs call).stage = .streaming)
    (inflight : next.inflight = replica.inflight.set (incoming call).reqId call)
    (draining : next.draining = replica.draining)
    (submitted : next.session.submitted = replica.session.submitted ++ [call]) :
      SharedStep incoming replica next (.arrive call late)
  | turnedAway {call : Nat} {late : Bool} (absent : (replica.rpcs call).stage = .absent)
    (stage : (next.rpcs call).stage = .ended)
    (inflight : next.inflight =
      (replica.inflight.set (incoming call).reqId call).erase (incoming call).reqId)
    (draining : next.draining = replica.draining)
    (submitted : next.session.submitted = replica.session.submitted ++ [call]) :
      SharedStep incoming replica next (.arrive call late)
  | closed {call : Nat} (closing : (replica.rpcs call).stage = .closing)
    (inflight : next.inflight = replica.inflight.erase (incoming call).reqId)
    (draining : next.draining = replica.draining)
    (submitted : next.session.submitted = replica.session.submitted) :
      SharedStep incoming replica next (.close call)
  | drained (inflight : next.inflight = replica.inflight) (draining : next.draining = true)
    (submitted : next.session.submitted = replica.session.submitted) : SharedStep incoming replica next .drain

theorem onEngine_books {call : Call} (nobody : added [call] = []) (worked : rep.onEngine cfg call = .ok next) :
    SameBooks rep next := by
  obtain ⟨_, called, rfl⟩ := onEngine_inv worked
  have submitted := submitted_call called
  rw [nobody, List.append_nil] at submitted
  exact ⟨rfl, rfl, submitted⟩

theorem fanout_books (rep : Replica V S) : SameBooks rep rep.fanout := by
  obtain ⟨inflight, draining, submitted⟩ := fanout_frame rep
  exact ⟨inflight, draining, submitted⟩

theorem submit_shared {call : Nat} {late : Bool} (absent : (rep.rpcs call).stage = .absent)
    (submitted : rep.submit cfg inc call late = .ok next) :
    SharedStep inc rep next (.arrive call late) := by
  simp only [Replica.submit] at submitted
  split at submitted
  case h_1 => cases submitted
  case h_2 _ worked =>
    obtain ⟨sess, called, rfl⟩ := onEngine_inv worked
    have listed := submitted_call called
    -- `_fanout` leaves the new entries alone.
    have books := fanout_books { rep.register inc call with session := sess }
    split at submitted
    · cases submitted
      refine .turnedAway absent ?_ ?_ books.draining (books.submitted.trans listed)
      · rw [set_rpcs_self]
        rfl
      · exact congrArg (fun dict => Dict.erase dict (inc call).reqId) books.inflight
    · cases submitted
      refine .joined absent ?_ books.inflight books.draining (books.submitted.trans listed)
      have rests := fanout_rests { rep.register inc call with session := sess } call
      rw [rests.stage]
      exact congrArg Rpc.stage (set_rpcs_self _ _ _)

theorem step_shared {event : Event} (went : rep.step cfg tok inc event = .ok next) :
    SharedStep inc rep next event := by
  have untouched : SameBooks rep rep := ⟨rfl, rfl, rfl⟩
  cases event with
  | arrive arriving late =>
    have notClose : ∀ call, Event.arrive arriving late = .close call → (rep.rpcs call).stage ≠ .closing := by
      intro call same
      cases same
    simp only [Replica.step] at went
    split at went
    case isFalse =>
      cases went
      exact .same untouched notClose
    case isTrue absent =>
      simp only [Replica.generate] at went
      split at went
      · cases went
        exact .same ⟨rfl, rfl, rfl⟩ notClose
      · split at went
        · cases went
          exact .same ⟨rfl, rfl, rfl⟩ notClose
        · split at went
          · cases went
            exact .same ⟨rfl, rfl, rfl⟩ notClose
          · exact submit_shared absent went
  | poll =>
    cases went
    refine .same ?_ (fun call same => by cases same)
    simp only [Replica.poll]
    split <;> exact ⟨rfl, rfl, rfl⟩
  | leave =>
    refine .same ?_ (fun call same => by cases same)
    simp only [Replica.step] at went
    split at went
    · obtain ⟨inflight, draining, submitted⟩ := onEngine_books rfl went
      exact ⟨inflight, draining, submitted⟩
    · cases went
      exact untouched
  | close closing =>
    simp only [Replica.step] at went
    split at went
    case isTrue inside =>
      cases went
      have books := fanout_books rep
      exact .closed inside (congrArg (fun dict => Dict.erase dict (inc closing).reqId) books.inflight)
        books.draining books.submitted
    case isFalse outside =>
      cases went
      refine .same untouched ?_
      intro call same
      cases same
      exact outside
  | step => exact .same (onEngine_books rfl went) (fun call same => by cases same)
  | applyCancellations => exact .same (onEngine_books rfl went) (fun call same => by cases same)
  | fanout =>
    cases went
    exact .same (fanout_books rep) (fun call same => by cases same)
  | drain =>
    cases went
    exact .drained rfl rfl rfl

end Nanoserve.Verified
