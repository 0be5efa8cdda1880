import Nanoserve.Lib.Runs
import Nanoserve.Router.Client
import Nanoserve.Verified.Membership

/-! # Which addresses are routed to

The ring keeps a replica's readiness under its id.
-/

namespace Nanoserve.Verified

open Lib Router

/-- Whoever a pick returns was last found healthy at the address the ring has for it. -/
def OnlyVerified (fleet : Fleet) : Prop :=
  ∀ key exclude replica ring, fleet.rc.ring.pickExcluding key exclude = some (replica, ring) →
    fleet.verified.get? replica.id = some replica.addr

def Vouched (fleet : Fleet) : Prop :=
  ∀ id replica, fleet.rc.ring.replicas.get? id = some replica → replica.ready = true →
    fleet.verified.get? id = some replica.addr

theorem exists_pick {ring : Ring} (shaped : Shaped ring) {id : String} {rep : Replica}
    (present : ring.replicas.get? id = some rep) (ready : rep.ready = true) :
    ∃ exclude, ring.pickExcluding [] exclude = some (ring.take rep) := by
  let others := ring.replicas.keys.filter fun other => other ≠ id
  have mine : id ∉ others := by simp [others]
  obtain ⟨⟨_, _⟩, picked⟩ := (exists_pick_iff shaped [] others).mpr ⟨id, rep, present, ready, mine⟩
  refine ⟨others, picked.trans ?_⟩
  obtain ⟨other, _, otherPresent, notExcluded, -, same⟩ := pick_takes shaped picked
  have sameId : other = id := by
    by_contra differs
    exact notExcluded (List.mem_filter.mpr ⟨Dict.mem_keys.mpr ⟨_, otherPresent⟩, decide_eq_true differs⟩)
  rw [sameId, present] at otherPresent
  obtain rfl := Option.some.inj otherPresent
  exact congrArg some same

theorem onlyVerified_iff {fleet : Fleet} (shaped : Shaped fleet.rc.ring) : OnlyVerified fleet ↔ Vouched fleet := by
  constructor
  · intro only id rep present ready
    obtain ⟨exclude, picked⟩ := exists_pick shaped present ready
    have verified := only [] exclude _ _ picked
    rw [shaped.ids id rep present] at verified
    exact verified
  · intro vouched key exclude taken next picked
    obtain ⟨id, rep, present, -, ready, same⟩ := pick_takes shaped picked
    obtain ⟨rfl, -⟩ := Prod.mk.inj same
    have named := shaped.ids id rep present
    rw [named]
    exact vouched id rep present ready

/-! ## What an event changes -/

/-- No ready replica gets another address, and a health check that succeeds was sent to the address
the ring has by then. -/
def Careful (fleet : Fleet) : FleetEvent → Prop
  | .apply endpoints => ∀ id replica addr, fleet.rc.ring.replicas.get? id = some replica → replica.ready = true →
      addressIn endpoints id = some addr → addr = replica.addr
  | .report index healthy => ∀ probe replica addr, fleet.probes[index]? = some probe →
      fleet.rc.ring.replicas.get? probe.id = some replica → probe.answer healthy = some addr → addr = replica.addr
  | _ => True

def SameFaces (before after : Ring) : Prop :=
  ∀ id, (after.replicas.get? id).map (fun replica => (replica.addr, replica.ready)) =
    (before.replicas.get? id).map fun replica => (replica.addr, replica.ready)

theorem sameFaces_set {ring : Ring} {id : String} {rep next : Replica} (present : ring.replicas.get? id = some rep)
    (addr : next.addr = rep.addr) (ready : next.ready = rep.ready) :
    SameFaces ring { ring with replicas := ring.replicas.set id next } := by
  intro other
  simp only [Dict.get?_set]
  by_cases same : other = id
  · simp [same, present, addr, ready]
  · simp [same]

theorem sameFaces_pick {ring : Ring} (shaped : Shaped ring) (key : List UInt8) (exclude : List String) :
    SameFaces ring (ring.call (.pick key exclude)) := by
  simp only [Ring.call]
  cases picked : ring.pickExcluding key exclude with
  | none => exact fun _ => rfl
  | some result =>
    obtain ⟨_, _⟩ := result
    obtain ⟨id, rep, present, -, -, same⟩ := pick_takes shaped picked
    obtain ⟨-, rfl⟩ := Prod.mk.inj same
    have named := shaped.ids id rep present
    subst named
    exact sameFaces_set present rfl rfl

theorem sameFaces_release (ring : Ring) (id : String) : SameFaces ring (ring.release id) := by
  unfold Ring.release
  cases present : ring.replicas.get? id with
  | none => exact fun _ => rfl
  | some => exact sameFaces_set present rfl rfl

theorem Vouched.of_sameFaces {before after : Fleet} (vouched : Vouched before)
    (faces : SameFaces before.rc.ring after.rc.ring) (verified : after.verified = before.verified) : Vouched after := by
  intro id rep present ready
  have same := faces id
  rw [present, Option.map_some] at same
  obtain ⟨old, oldPresent, oldSame⟩ := Option.map_eq_some_iff.mp same.symm
  obtain ⟨addr, oldReady⟩ := Prod.mk.inj oldSame
  rw [verified, ← addr]
  exact vouched id old oldPresent (oldReady.trans ready)

section Step

variable {fleet : Fleet} (shaped : Shaped fleet.rc.ring) (vouched : Vouched fleet)
include shaped vouched

theorem vouched_apply (endpoints : List Endpoint) :
    Vouched { fleet with rc := fleet.rc.apply endpoints } ↔ Careful fleet (.apply endpoints) := by
  constructor
  · intro after id rep addr present ready addressed
    have standing := congrArg Prod.fst (standing_apply shaped endpoints id)
    rw [addressed, Option.elim_some, present] at standing
    have now := after id { rep with addr } standing ready
    have before := vouched id rep present ready
    exact Option.some.inj (now.symm.trans before)
  · intro careful id rep present ready
    have shown : (standing (fleet.rc.apply endpoints) id).1 = some rep := present
    rw [standing_apply shaped] at shown
    cases before : fleet.rc.ring.replicas.get? id with
    | none =>
      -- Whoever is new is not ready.
      cases addressed : addressIn endpoints id with
      | none => simp [addressed, before, standing] at shown
      | some =>
        simp only [addressed, before, Option.elim_some, Option.map_none, Option.getD_none, Option.some.injEq] at shown
        rw [← shown] at ready
        cases ready
    | some old =>
      cases addressed : addressIn endpoints id with
      | none =>
        simp only [addressed, before, Option.elim_none, Option.elim_some] at shown
        split at shown
        · obtain rfl := Option.some.inj shown
          exact vouched id old before ready
        · cases shown
      | some addr =>
        simp only [addressed, before, Option.elim_some, Option.map_some, Option.getD_some, Option.some.injEq] at shown
        rw [← shown] at ready ⊢
        have unchanged := careful id old addr before ready addressed
        rw [unchanged]
        exact vouched id old before ready

theorem vouched_reap : Vouched { fleet with rc := fleet.rc.reap } := by
  intro id rep present ready
  have shown : (standing fleet.rc.reap id).1 = some rep := present
  rw [standing_reap shaped] at shown
  cases before : fleet.rc.ring.replicas.get? id with
  | none => simp [before, standing] at shown
  | some =>
    simp only [before, Option.elim_some] at shown
    split at shown
    · cases shown
    · exact vouched id rep shown ready

omit shaped in
theorem vouched_report_failed {index : Nat} {probe : Probe} {healthy : Bool} (failed : probe.answer healthy = none) :
    Vouched (fleet.report index probe healthy) := by
  have checked : (fleet.report index probe healthy).rc.ring = fleet.rc.ring ∨
      (fleet.report index probe healthy).rc.ring = fleet.rc.ring.setReady probe.id false := by
    simp only [Fleet.report, Fleet.withRing, failed, HealthChecker.checkOne, Option.isSome_none, Bool.false_eq_true,
      if_false]
    split
    · exact .inr rfl
    · exact .inl rfl
  have verified : (fleet.report index probe healthy).verified = fleet.verified := by
    simp only [Fleet.report, failed, Option.elim_none]
  intro id rep present ready
  rw [verified]
  cases checked with
  | inl same =>
    rw [same] at present
    exact vouched id rep present ready
  | inr unready =>
    rw [unready, get?_setReady] at present
    split at present
    · obtain ⟨_, -, rfl⟩ := Option.map_eq_some_iff.mp present
      cases ready
    · exact vouched id rep present ready

omit shaped in
theorem vouched_report_answered {index : Nat} {probe : Probe} {healthy : Bool} {addr : String}
    (answered : probe.answer healthy = some addr) :
    Vouched (fleet.report index probe healthy) ↔
      ∀ rep, fleet.rc.ring.replicas.get? probe.id = some rep → addr = rep.addr := by
  have ring : (fleet.report index probe healthy).rc.ring = fleet.rc.ring.setReady probe.id true := by
    simp only [Fleet.report, Fleet.withRing, answered, HealthChecker.checkOne, Option.isSome_some, if_true]
  have verified : (fleet.report index probe healthy).verified = fleet.verified.set probe.id addr := by
    simp only [Fleet.report, answered, Option.elim_some]
  constructor
  · intro after rep present
    have marked : (fleet.report index probe healthy).rc.ring.replicas.get? probe.id =
        some { rep with ready := true } := by
      rw [ring, get?_setReady, if_pos rfl, present, Option.map_some]
    have now := after probe.id _ marked rfl
    rw [verified, Dict.get?_set, if_pos rfl] at now
    exact Option.some.inj now
  · intro matching id rep present ready
    rw [ring, get?_setReady] at present
    rw [verified, Dict.get?_set]
    by_cases same : id = probe.id
    · rw [if_pos same] at present
      obtain ⟨old, oldPresent, rfl⟩ := Option.map_eq_some_iff.mp present
      rw [if_pos same, matching old oldPresent]
    · rw [if_neg same] at present ⊢
      exact vouched id rep present ready

theorem vouched_step {dials : String → Bool} {event : FleetEvent} {next : Fleet}
    (went : fleet.step dials event = .ok next) : Vouched next ↔ Careful fleet event := by
  cases event with
  | apply endpoints =>
    cases went
    exact vouched_apply shaped vouched endpoints
  | reap =>
    cases went
    exact iff_of_true (vouched_reap shaped vouched) trivial
  | sync | probe id =>
    cases went
    exact iff_of_true vouched trivial
  | report index healthy =>
    simp only [Fleet.step] at went
    cases found : fleet.probes[index]? with
    | none => simp [found] at went
    | some probe =>
      simp only [found, Except.ok.injEq] at went
      subst went
      cases answered : probe.answer healthy with
      | none =>
        refine iff_of_true (vouched_report_failed vouched answered) ?_
        intro other rep addr sameProbe _ answer
        rw [found] at sameProbe
        obtain rfl := Option.some.inj sameProbe
        rw [answered] at answer
        cases answer
      | some addr =>
        rw [vouched_report_answered vouched answered]
        constructor
        · intro matching other rep otherAddr sameProbe present answer
          rw [found] at sameProbe
          obtain rfl := Option.some.inj sameProbe
          rw [answered] at answer
          obtain rfl := Option.some.inj answer
          exact matching rep present
        · intro careful rep present
          exact careful probe rep addr found present answered
  | pick key exclude =>
    cases went
    exact iff_of_true (vouched.of_sameFaces (sameFaces_pick shaped key exclude) rfl) trivial
  | release id =>
    cases went
    exact iff_of_true (vouched.of_sameFaces (sameFaces_release _ id) rfl) trivial

end Step

theorem Shaped.fleetStep {dials : String → Bool} {fleet next : Fleet} {event : FleetEvent} (shaped : Shaped fleet.rc.ring)
    (went : fleet.step dials event = .ok next) : Shaped next.rc.ring := by
  cases event with
  | apply endpoints =>
    cases went
    exact shaped.membershipCall (.apply endpoints)
  | reap =>
    cases went
    exact shaped.membershipCall .reap
  | sync | probe id =>
    cases went
    exact shaped
  | report =>
    simp only [Fleet.step] at went
    split at went
    · cases went
    · cases went
      simp only [Fleet.report, Fleet.withRing, HealthChecker.checkOne]
      split
      · exact shaped.setReady _ _
      · simp only
        split
        · exact shaped.setReady _ _
        · exact shaped
  | pick key exclude =>
    cases went
    exact shaped.call (.pick key exclude)
  | release id =>
    cases went
    exact shaped.release id

/-- All through a run of the loops, a pick returns only replicas that were last found healthy at the
address the ring has for them, exactly if every event is careful. -/
theorem picks_verified_iff_careful (dials : String → Bool) (virtualNodes : Nat) (epsilon : Epsilon)
    (events : List FleetEvent) :
    Throughout (Fleet.step dials) OnlyVerified (Fleet.new virtualNodes epsilon) events ↔
      Along (Fleet.step dials) Careful (Fleet.new virtualNodes epsilon) events := by
  have shaped : Shaped (Fleet.new virtualNodes epsilon).rc.ring := Shaped.new virtualNodes epsilon
  have nobody : OnlyVerified (Fleet.new virtualNodes epsilon) := by
    rw [onlyVerified_iff shaped]
    intro id replica present
    simp [Fleet.new, Ring.new] at present
  refine @along_iff_throughout _ _ _ _ (fun fleet => Shaped fleet.rc.ring) _ _
    (fun _ _ _ held stepped => Shaped.fleetStep held stepped) ?_ ?_ _ _ shaped nobody
  · intro fleet event next held only stepped
    rw [onlyVerified_iff (held.fleetStep stepped)]
    exact vouched_step held ((onlyVerified_iff held).mp only) stepped
  · intro fleet event raised _ failed
    cases event with
    | report =>
      intro probe replica addr found
      simp [Fleet.step, found] at failed
    | apply | reap | sync | probe | pick | release => cases failed

/-- A replica is found healthy and then registers again under another address. -/
theorem reregistered_replica_is_picked :
    Yields (run (Fleet.step fun _ => true) (Fleet.new 1 (.finite (1 / 4)))
        [.apply [⟨"a", "host:1"⟩], .sync, .probe "a", .report 0 true, .apply [⟨"a", "host:2"⟩]]) fun fleet =>
      (fleet.rc.ring.pickExcluding [] []).map (fun picked => (picked.1.id, picked.1.addr)) = some ("a", "host:2") ∧
        fleet.verified.get? "a" = some "host:1" := by
  decide +kernel

end Nanoserve.Verified
