import Nanoserve.Router.Registry
import Nanoserve.Verified.Ring

/-! # Who is on the ring

What `apply` and `reap` do to one id depends on that id only.
-/

namespace Nanoserve.Verified

open Lib Router Dict List

variable {rc : Reconciler}

theorem snapshot_perm (ring : Ring) : ring.snapshot.Perm ring.replicas.values := perm_insertionSort _ _

theorem Shaped.map_id_values {ring : Ring} (shaped : Shaped ring) :
    ring.replicas.values.map Replica.id = ring.replicas.keys := by
  simp only [values, Dict.keys, map_map]
  apply map_congr_left
  intro item mem
  exact shaped.ids item.1 item.2 (get?_eq_some.mpr mem)

theorem Shaped.nodup_snapshot {ring : Ring} (shaped : Shaped ring) : (ring.snapshot.map Replica.id).Nodup := by
  have same := (snapshot_perm ring).map Replica.id
  rw [same.nodup_iff, shaped.map_id_values]
  exact ring.replicas.nodup_keys

theorem Shaped.find?_snapshot {ring : Ring} (shaped : Shaped ring) (id : String) :
    ring.snapshot.find? (fun replica => replica.id = id) = ring.replicas.get? id := by
  cases present : ring.replicas.get? id with
  | none =>
    rw [find?_eq_none]
    intro replica mem named
    have listed : replica.id ∈ ring.replicas.values.map Replica.id :=
      mem_map_of_mem ((snapshot_perm ring).mem_iff.mp mem)
    rw [shaped.map_id_values, of_decide_eq_true named] at listed
    exact get?_eq_none.mp present listed
  | some replica =>
    have mem : replica ∈ ring.snapshot :=
      (snapshot_perm ring).mem_iff.mpr (mem_map.mpr ⟨(id, replica), get?_eq_some.mp present, rfl⟩)
    have named : replica.id = id := shaped.ids id replica present
    cases found : ring.snapshot.find? (fun replica => replica.id = id) with
    | none =>
      have absent := find?_eq_none.mp found replica mem
      exact absurd (decide_eq_true named) absent
    | some other =>
      have otherNamed : other.id = id := by simpa using find?_some found
      exact congrArg some (inj_on_of_nodup_map shaped.nodup_snapshot (mem_of_find?_eq_some found) mem
        (otherNamed.trans named.symm))

/-! ## What one call does to one id -/

/-- The address an event gives an id: the last one. -/
def addressIn (endpoints : List Endpoint) (id : String) : Option String :=
  ((endpoints.filter fun endpoint => endpoint.id = id).getLast?).map Endpoint.addr

theorem addressIn_isSome {endpoints : List Endpoint} {id : String} :
    (addressIn endpoints id).isSome ↔ id ∈ endpoints.map Endpoint.id := by
  rw [addressIn, Option.isSome_map, getLast?_isSome, ne_eq, filter_eq_nil_iff, mem_map]
  simp only [decide_eq_true_eq, not_forall, not_not, exists_prop]

theorem get?_wanted (endpoints : List Endpoint) (id : String) :
    (Reconciler.wanted endpoints).get? id = addressIn endpoints id := by
  -- From the back, since the last endpoint of an id counts.
  induction endpoints using reverseRecOn with
  | nil => rfl
  | append_singleton endpoints endpoint ih =>
    have unfolded : Reconciler.wanted (endpoints ++ [endpoint]) =
        (Reconciler.wanted endpoints).set endpoint.id endpoint.addr := by
      simp only [Reconciler.wanted, foldl_append, foldl_cons, foldl_nil]
    rw [unfolded, get?_set, ih, addressIn, addressIn, filter_append]
    by_cases same : id = endpoint.id
    · simp [same]
    · have others : [endpoint].filter (fun other => other.id = id) = [] := by simp [Ne.symm same]
      rw [if_neg same, others, append_nil]

def standing (rc : Reconciler) (id : String) : Option Replica × Option Bool :=
  (rc.ring.replicas.get? id, rc.orphaned.get? id)

theorem standing_drop (rc : Reconciler) (id other : String) :
    standing (rc.drop id) other = if other = id then (none, none) else standing rc other := by
  simp only [standing, Reconciler.drop, get?_remove, get?_erase]
  split <;> rfl

def sorted (wanted : Dict String String) (replica : Replica) :
    Option Replica × Option Bool → Option Replica × Option Bool := fun before =>
  match wanted.get? replica.id with
  | some _ => (before.1, none)
  | none => if replica.ready then (before.1, some true) else (none, none)

theorem standing_sort (wanted : Dict String String) (rc : Reconciler) (replica : Replica) (other : String) :
    standing (rc.sort wanted replica) other =
      if other = replica.id then sorted wanted replica (standing rc other) else standing rc other := by
  unfold Reconciler.sort sorted
  cases wanted.get? replica.id with
  | some =>
    simp only [standing, get?_erase]
    split <;> rfl
  | none =>
    simp only
    by_cases ready : replica.ready = true
    · simp only [ready, if_true, standing, get?_set]
      split <;> rfl
    · simp only [ready, Bool.false_eq_true, if_false]
      exact standing_drop rc replica.id other

theorem standing_sorted (shaped : Shaped rc.ring) (wanted : Dict String String) (id : String) :
    standing (rc.ring.snapshot.foldl (Reconciler.sort wanted) rc) id =
      (rc.ring.replicas.get? id).elim (standing rc id) fun replica => sorted wanted replica (standing rc id) := by
  rw [← shaped.find?_snapshot]
  exact foldl_pointwise (standing_sort wanted) shaped.nodup_snapshot rc id

theorem get?_addAll (members : Dict String String) (ring : Ring) (id : String) :
    (members.items.foldl (fun ring endpoint => ring.add endpoint.1 endpoint.2) ring).replicas.get? id =
      (members.get? id).elim (ring.replicas.get? id) fun addr =>
        some (((ring.replicas.get? id).map fun replica => { replica with addr }).getD { id, addr }) := by
  refine @foldl_items_pointwise String String Ring (Option Replica) _ (fun ring id => ring.replicas.get? id) _
    (fun id addr mem => some ((mem.map fun replica => { replica with addr }).getD { id, addr })) ?_ members ring id
  intro ring key addr other
  rw [get?_add]
  by_cases same : other = key
  · rw [if_pos same, if_pos same, same]
  · rw [if_neg same, if_neg same]

theorem standing_apply (shaped : Shaped rc.ring) (endpoints : List Endpoint) (id : String) :
    standing (rc.apply endpoints) id =
      (addressIn endpoints id).elim
        ((rc.ring.replicas.get? id).elim (standing rc id) fun replica =>
          if replica.ready then (some replica, some true) else (none, none))
        fun addr =>
          (some (((rc.ring.replicas.get? id).map fun replica => { replica with addr }).getD { id, addr }),
            (rc.ring.replicas.get? id).elim (rc.orphaned.get? id) fun _ => none) := by
  have sortedEq := standing_sorted shaped (Reconciler.wanted endpoints) id
  obtain ⟨ringEq, orphanedEq⟩ := Prod.mk.inj sortedEq
  have added := get?_addAll (Reconciler.wanted endpoints)
    (rc.ring.snapshot.foldl (Reconciler.sort (Reconciler.wanted endpoints)) rc).ring id
  rw [get?_wanted] at added
  have wantedEq := get?_wanted endpoints id
  simp only [standing, Reconciler.apply]
  rw [added, ringEq, orphanedEq]
  cases present : rc.ring.replicas.get? id with
  | none => cases addressIn endpoints id <;> simp [standing, present]
  | some replica =>
    have named := shaped.ids id replica present
    simp only [Option.elim_some, sorted, named, wantedEq, standing, present]
    cases addressIn endpoints id with
    | some => rfl
    | none => by_cases ready : replica.ready = true <;> simp [ready]

theorem standing_release (rc : Reconciler) (replica : Replica) (other : String) :
    standing (rc.release replica) other =
      if other = replica.id then
        if (standing rc other).2.getD false && !replica.ready then (none, none) else standing rc other
      else standing rc other := by
  unfold Reconciler.release
  by_cases same : other = replica.id
  · subst same
    rw [if_pos rfl]
    change standing (if (standing rc replica.id).2.getD false && !replica.ready then _ else _) _ = _
    split
    · rw [standing_drop, if_pos rfl]
    · rfl
  · rw [if_neg same]
    split
    · rw [standing_drop, if_neg same]
    · rfl

theorem standing_reap (shaped : Shaped rc.ring) (id : String) :
    standing rc.reap id =
      (rc.ring.replicas.get? id).elim (standing rc id) fun replica =>
        if rc.isOrphaned id && !replica.ready then (none, none) else standing rc id := by
  unfold Reconciler.reap
  split
  · next empty =>
    have nobody : rc.isOrphaned id = false := by
      have absent : rc.orphaned.get? id = none := by
        rw [get?_eq_none, Dict.keys, eq_nil_of_length_eq_zero empty]
        exact not_mem_nil
      rw [Reconciler.isOrphaned, absent, Option.getD_none]
    cases rc.ring.replicas.get? id <;> simp [nobody]
  · rw [← shaped.find?_snapshot]
    exact @foldl_pointwise _ _ _ _ _ _ _ _ (fun (replica : Replica) before =>
      if before.2.getD false && !replica.ready then (none, none) else before) standing_release _ shaped.nodup_snapshot rc id

theorem standing_setReady (rc : Reconciler) (id other : String) (ready : Bool) :
    standing (rc.call (.setReady id ready)) other =
      if other = id then ((rc.ring.replicas.get? id).map fun replica => { replica with ready }, rc.orphaned.get? id)
      else standing rc other := by
  simp only [standing, Reconciler.call, get?_setReady]
  by_cases same : other = id
  · simp [same]
  · simp [same]

theorem Shaped.sort {wanted : Dict String String} (shaped : Shaped rc.ring) (replica : Replica) :
    Shaped (rc.sort wanted replica).ring := by
  unfold Reconciler.sort
  split
  · exact shaped
  · split
    · exact shaped
    · exact shaped.remove replica.id

theorem Shaped.releaseOrphan (shaped : Shaped rc.ring) (replica : Replica) : Shaped (rc.release replica).ring := by
  unfold Reconciler.release
  split
  · exact shaped.remove replica.id
  · exact shaped

theorem Shaped.membershipCall (shaped : Shaped rc.ring) (call : MembershipCall) : Shaped (rc.call call).ring := by
  cases call with
  | apply endpoints =>
    have sorted : Shaped (rc.ring.snapshot.foldl (Reconciler.sort (Reconciler.wanted endpoints)) rc).ring :=
      foldlRecOn (motive := fun rc : Reconciler => Shaped rc.ring) _ _ shaped fun _ held replica _ => held.sort replica
    exact foldlRecOn (motive := Shaped) _ _ sorted fun _ held endpoint _ => held.add endpoint.1 endpoint.2
  | reap =>
    simp only [Reconciler.call, Reconciler.reap]
    split
    · exact shaped
    · exact foldlRecOn (motive := fun rc : Reconciler => Shaped rc.ring) _ _ shaped fun _ held replica _ =>
        held.releaseOrphan replica
  | setReady id ready => exact shaped.setReady id ready

/-! ## Whole runs -/

/-- The event that counts after a call. -/
def eventAfter (last : List Endpoint) : MembershipCall → List Endpoint
  | .apply endpoints => endpoints
  | _ => last

/-- The last event applied; before the first one there is nobody. -/
def lastEvent (calls : List MembershipCall) : List Endpoint := calls.foldl eventAfter []

structure Settled (address : Option String) (standing : Option Replica × Option Bool) : Prop where
  present : standing.1.isSome ↔ address.isSome ∨ standing.2.isSome
  apart : standing.2.isSome → address = none
  flag : ∀ flag, standing.2 = some flag → flag = true
  addressed : ∀ replica addr, standing.1 = some replica → address = some addr → replica.addr = addr

theorem Settled.not_orphaned {address : Option String} {orphan : Option Bool} (settled : Settled address (none, orphan)) :
    orphan = none := by
  cases orphan with
  | none => rfl
  | some => exact absurd (settled.present.mpr (.inr rfl)) (by simp)

structure Reconciled (last : List Endpoint) (rc : Reconciler) : Prop where
  shaped : Shaped rc.ring
  settled : ∀ id, Settled (addressIn last id) (standing rc id)

namespace Reconciled

variable {last : List Endpoint}

theorem new (virtualNodes : Nat) (epsilon : Epsilon) : Reconciled [] { ring := Ring.new virtualNodes epsilon } where
  shaped := Shaped.new virtualNodes epsilon
  settled id := by
    have nobody : standing { ring := Ring.new virtualNodes epsilon } id = (none, none) := rfl
    rw [nobody]
    exact ⟨by simp [addressIn], by simp, by simp, by simp⟩

section

variable (reconciled : Reconciled last rc)
include reconciled

theorem apply (endpoints : List Endpoint) :
    Reconciled endpoints (rc.apply endpoints) := by
  refine ⟨reconciled.shaped.membershipCall (.apply endpoints), ?_⟩
  intro id
  have before := reconciled.settled id
  rw [standing_apply reconciled.shaped]
  cases present : rc.ring.replicas.get? id with
  | none =>
    -- Not on the ring, so not orphaned either.
    simp only [standing, present] at before ⊢
    have orphan := before.not_orphaned
    cases addressIn endpoints id with
    | none => exact ⟨by simp [orphan], by simp, by simp [orphan], by simp⟩
    | some => exact ⟨by simp, by simp [orphan], by simp [orphan], by simp⟩
  | some replica =>
    cases addressIn endpoints id with
    | some => exact ⟨by simp, by simp, by simp, by simp⟩
    | none =>
      by_cases ready : replica.ready = true
      · simp only [Option.elim_none, Option.elim_some, ready, if_true]
        exact ⟨by simp, by simp, by simp, by simp⟩
      · simp only [Option.elim_none, Option.elim_some, ready, Bool.false_eq_true, if_false]
        exact ⟨by simp, by simp, by simp, by simp⟩

theorem reap : Reconciled last rc.reap := by
  refine ⟨reconciled.shaped.membershipCall .reap, ?_⟩
  intro id
  have before := reconciled.settled id
  rw [standing_reap reconciled.shaped]
  cases present : rc.ring.replicas.get? id with
  | none => exact before
  | some =>
    simp only [Option.elim_some]
    split
    · next gone =>
      -- Only orphans go, and they are not members.
      have orphaned : (standing rc id).2 = some true := by
        have flag := (Bool.and_eq_true_iff.mp gone).1
        cases orphan : rc.orphaned.get? id with
        | none => simp [Reconciler.isOrphaned, orphan] at flag
        | some value => exact orphan.trans (congrArg some (before.flag value orphan))
      have stranger := before.apart (by simp [orphaned])
      exact ⟨by simp [stranger], by simp, by simp, by simp⟩
    · exact before

theorem setReady (id : String) (ready : Bool) :
    Reconciled last (rc.call (.setReady id ready)) := by
  refine ⟨reconciled.shaped.setReady id ready, ?_⟩
  intro other
  have before := reconciled.settled other
  rw [standing_setReady]
  by_cases same : other = id
  · subst same
    rw [if_pos rfl]
    refine ⟨?_, before.apart, before.flag, ?_⟩
    · rw [Option.isSome_map]
      exact before.present
    · intro replica addr mem address
      obtain ⟨found, present, rfl⟩ := Option.map_eq_some_iff.mp mem
      exact before.addressed found addr present address
  · rw [if_neg same]
    exact before

theorem call (call : MembershipCall) :
    Reconciled (eventAfter last call) (rc.call call) := by
  cases call with
  | apply endpoints => exact reconciled.apply endpoints
  | reap => exact reconciled.reap
  | setReady id ready => exact reconciled.setReady id ready

theorem after (calls : List MembershipCall) :
    Reconciled (calls.foldl eventAfter last) (rc.after calls) := by
  induction calls generalizing last rc with
  | nil => exact reconciled
  | cons call _ ih => exact ih (reconciled.call call)

end

end Reconciled

theorem ready_stays (shaped : Shaped rc.ring) {call : MembershipCall} (registry : call.isRegistry = true)
    {id : String} (ready : id ∈ readyIds rc.ring) : id ∈ readyIds (rc.call call).ring := by
  obtain ⟨replica, present, isReady⟩ := mem_readyIds.mp ready
  rw [mem_readyIds]
  cases call with
  | apply endpoints =>
    have after := congrArg Prod.fst (standing_apply shaped endpoints id)
    simp only [present, Option.elim_some, isReady, if_true] at after
    cases addressed : addressIn endpoints id with
    | none =>
      rw [addressed] at after
      exact ⟨replica, after, isReady⟩
    | some addr =>
      rw [addressed] at after
      exact ⟨{ replica with addr }, after, isReady⟩
  | reap =>
    have after := congrArg Prod.fst (standing_reap shaped id)
    simp only [present, Option.elim_some, isReady, Bool.not_true, Bool.and_false, Bool.false_eq_true, if_false] at after
    exact ⟨replica, after.trans present, isReady⟩
  | setReady => cases registry

theorem readyCount_mono (shaped : Shaped rc.ring) {calls : List MembershipCall}
    (registry : ∀ call ∈ calls, call.isRegistry = true) : rc.ring.readyCount ≤ (rc.after calls).ring.readyCount := by
  induction calls generalizing rc with
  | nil => exact Nat.le_refl _
  | cons call _ ih =>
    have stays : readyIds rc.ring ⊆ readyIds (rc.call call).ring := fun id ready =>
      ready_stays shaped (registry call mem_cons_self) ready
    have distinct : (readyIds rc.ring).Nodup :=
      rc.ring.replicas.nodup_keys.sublist (filter_sublist.map Prod.fst)
    have more := (subperm_of_subset distinct stays).length_le
    rw [length_readyIds, length_readyIds] at more
    have rest := ih (shaped.membershipCall call) fun later mem =>
      registry later (mem_cons_of_mem _ mem)
    exact Nat.le_trans more rest

/-- However the events of the registry, the reaping and the health checks follow each other, the
ring has the members of the last event, with their addresses, and the orphans, and nothing the
registry says takes a ready replica away. -/
theorem membership_is_reconciled (virtualNodes : Nat) (epsilon : Epsilon) (calls : List MembershipCall) :
    let rc := Reconciler.after { ring := Ring.new virtualNodes epsilon } calls
    (∀ id, id ∈ rc.ring.replicas.keys ↔ id ∈ (lastEvent calls).map Endpoint.id ∨ id ∈ rc.orphaned.keys) ∧
      (∀ id ∈ rc.orphaned.keys, id ∉ (lastEvent calls).map Endpoint.id) ∧
      (∀ id addr, addressIn (lastEvent calls) id = some addr →
        ∃ replica, rc.ring.replicas.get? id = some replica ∧ replica.addr = addr) ∧
      (∀ call : MembershipCall, call.isRegistry = true → ∀ id replica, rc.ring.replicas.get? id = some replica →
        replica.ready = true →
        ∃ after, (rc.call call).ring.replicas.get? id = some after ∧ after.ready = true) ∧
      ∀ events : List MembershipCall, (∀ call ∈ events, call.isRegistry = true) →
        rc.ring.readyCount ≤ (rc.after events).ring.readyCount := by
  intro rc
  have reconciled : Reconciled (lastEvent calls) rc := (Reconciled.new virtualNodes epsilon).after calls
  refine ⟨?_, ?_, ?_, ?_, fun events registry => readyCount_mono reconciled.shaped registry⟩
  · intro id
    rw [Dict.mem_keys_iff_isSome, Dict.mem_keys_iff_isSome, ← addressIn_isSome]
    exact (reconciled.settled id).present
  · intro id orphaned member
    rw [Dict.mem_keys_iff_isSome] at orphaned
    rw [← addressIn_isSome, (reconciled.settled id).apart orphaned] at member
    cases member
  · intro id addr addressed
    have present := (reconciled.settled id).present.mpr (.inl (by rw [addressed]; rfl))
    obtain ⟨replica, found⟩ := Option.isSome_iff_exists.mp present
    exact ⟨replica, found, (reconciled.settled id).addressed replica addr found addressed⟩
  · intro call registry id replica present ready
    exact mem_readyIds.mp (ready_stays reconciled.shaped registry (mem_readyIds.mpr ⟨replica, present, ready⟩))

end Nanoserve.Verified
